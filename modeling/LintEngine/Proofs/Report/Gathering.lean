import LintEngine.Proofs.Path
import LintEngine.Report.Sink
import Mathlib.Data.List.Induction
import Mathlib.Data.String.Basic

/-!
What a report makes of the findings that came in.

Merging keeps the findings without a group as they are, and has one finding
for each group, with the items of the group in the order in which they were
first seen. Leaving out repetitions and sorting change neither what is said
nor where. So nothing is lost, nothing is said twice, and nothing is said that
did not come in.
-/

namespace LintEngine

namespace Sink

open Std

/-! ### Places and groups -/

theorem samePlace_iff {f g : Finding} : samePlace f g = true ↔
    f.issue.id = g.issue.id ∧ f.location.file.components = g.location.file.components ∧
      f.location.start = g.location.start ∧ f.location.stop = g.location.stop := by
  simp only [samePlace, Bool.and_eq_true, beq_iff_eq, Path.beq_iff, and_assoc]

theorem samePlace_refl (f : Finding) : samePlace f f = true :=
  samePlace_iff.mpr ⟨rfl, rfl, rfl, rfl⟩

theorem samePlace_symm {f g : Finding} (h : samePlace f g = true) : samePlace g f = true := by
  obtain ⟨hi, hf, hs, ht⟩ := samePlace_iff.mp h
  exact samePlace_iff.mpr ⟨hi.symm, hf.symm, hs.symm, ht.symm⟩

theorem samePlace_trans {f g k : Finding} (h : samePlace f g = true) (h' : samePlace g k = true) :
    samePlace f k = true := by
  obtain ⟨hi, hf, hs, ht⟩ := samePlace_iff.mp h
  obtain ⟨hi', hf', hs', ht'⟩ := samePlace_iff.mp h'
  exact samePlace_iff.mpr ⟨hi.trans hi', hf.trans hf', hs.trans hs', ht.trans ht'⟩

theorem isRepeat_iff {f g : Finding} :
    isRepeat f g = true ↔ samePlace f g = true ∧ f.message = g.message := by
  rw [isRepeat, Bool.and_eq_true, beq_iff_eq]

theorem isRepeat_refl (f : Finding) : isRepeat f f = true :=
  isRepeat_iff.mpr ⟨samePlace_refl f, rfl⟩

theorem isRepeat_symm {f g : Finding} (h : isRepeat f g = true) : isRepeat g f = true := by
  obtain ⟨hp, hm⟩ := isRepeat_iff.mp h
  exact isRepeat_iff.mpr ⟨samePlace_symm hp, hm.symm⟩

theorem belongsTo_iff {f g : Finding} : belongsTo f g = true ↔
    samePlace f g = true ∧ ∃ a b, f.merge = some a ∧ g.merge = some b ∧ a.lead = b.lead := by
  rw [belongsTo]
  split
  · rename_i a b ha hb
    simp [ha, hb]
  · rename_i hnone
    refine ⟨fun h => (Bool.false_ne_true h).elim, ?_⟩
    rintro ⟨-, a, b, ha, hb, -⟩
    exact (hnone a b ha hb).elim

theorem belongsTo_symm {f g : Finding} (h : belongsTo f g = true) : belongsTo g f = true := by
  obtain ⟨hp, a, b, ha, hb, hl⟩ := belongsTo_iff.mp h
  exact belongsTo_iff.mpr ⟨samePlace_symm hp, b, a, hb, ha, hl.symm⟩

theorem belongsTo_trans {f g k : Finding} (h : belongsTo f g = true) (h' : belongsTo g k = true) :
    belongsTo f k = true := by
  obtain ⟨hp, a, b, ha, hb, hl⟩ := belongsTo_iff.mp h
  obtain ⟨hp', b', c, hb', hc, hl'⟩ := belongsTo_iff.mp h'
  obtain rfl : b = b' := Option.some.inj (hb.symm.trans hb')
  exact belongsTo_iff.mpr ⟨samePlace_trans hp hp', a, c, ha, hc, hl.trans hl'⟩

/-- Findings of one group belong to the same findings. -/
theorem belongsTo_eq {f g : Finding} (h : belongsTo f g = true) : belongsTo f = belongsTo g := by
  funext k
  rw [Bool.eq_iff_iff]
  exact ⟨belongsTo_trans (belongsTo_symm h), belongsTo_trans h⟩

/-! ### Merging -/

/-- What detectors promise of a finding with a group: it has one item, and the
item ends the message. -/
def Itemized (f : Finding) : Prop :=
  ∀ m, f.merge = some m → ∃ item, m.items = [item] ∧ f.message = m.lead ++ item

def itemsOf (f : Finding) : List String := (f.merge.map MergeGroup.items).getD []

/-- The distinct items of all findings in the group of `f`, each where it was
first seen. -/
def groupItems (fs : List Finding) (f : Finding) : List String :=
  ((fs.filter (belongsTo f)).flatMap itemsOf).eraseDups

/-- What merging has made of some findings. -/
structure Gathers (fs out : List Finding) : Prop where
  alone : ∀ f ∈ fs, f.merge = none → f ∈ out
  grouped : ∀ f ∈ fs, f.merge ≠ none → ∃ g ∈ out, belongsTo g f = true
  known : ∀ g ∈ out, g.merge = none → g ∈ fs
  backed : ∀ g ∈ out, g.merge ≠ none → ∃ f ∈ fs, belongsTo g f = true
  told : ∀ g ∈ out, ∀ m, g.merge = some m →
    m.items = groupItems fs g ∧ g.message = m.lead ++ Text.join ", " (groupItems fs g)
  apart : out.Pairwise fun f g => belongsTo f g = false

theorem belongsTo_self {f : Finding} (h : f.merge ≠ none) : belongsTo f f = true := by
  obtain ⟨m, hm⟩ := Option.ne_none_iff_exists'.mp h
  exact belongsTo_iff.mpr ⟨samePlace_refl f, m, m, hm, hm, rfl⟩

theorem merge_ne_none_of_belongsTo {f g : Finding} (h : belongsTo f g = true) :
    f.merge ≠ none ∧ g.merge ≠ none := by
  obtain ⟨-, a, b, ha, hb, -⟩ := belongsTo_iff.mp h
  simp [ha, hb]

/-- What becomes of `k` when `g` comes in. -/
def absorbed (g k : Finding) : Finding := if belongsTo k g then absorb k g else k

/-- Taking items in does not move a finding to another group. -/
theorem belongsTo_absorbed (g k : Finding) : belongsTo (absorbed g k) = belongsTo k := by
  rw [absorbed]
  split
  · rename_i h
    obtain ⟨-, a, b, ha, hb, -⟩ := belongsTo_iff.mp h
    funext f
    rw [absorb, ha, hb, belongsTo, belongsTo, ha]
    cases f.merge <;> rfl
  · rfl

theorem absorbed_of_merge_eq_none {g k : Finding} (h : k.merge = none) : absorbed g k = k := by
  rw [absorbed, if_neg]
  exact fun hb => (merge_ne_none_of_belongsTo hb).1 h

theorem merge_absorbed_eq_none {g k : Finding} : (absorbed g k).merge = none ↔ k.merge = none := by
  rw [absorbed]
  split
  · rename_i h
    obtain ⟨-, a, b, ha, hb, -⟩ := belongsTo_iff.mp h
    simp [absorb, ha, hb]
  · rfl

theorem mergeInto_of_forall {g : Finding} {out : List Finding}
    (h : ∀ f ∈ out, belongsTo f g = false) : mergeInto g out = out ++ [g] := by
  induction out with
  | nil => rfl
  | cons f fs ih =>
      obtain ⟨hf, hfs⟩ := List.forall_mem_cons.mp h
      rw [mergeInto, hf, ih hfs]
      rfl

theorem mergeInto_of_exists {g : Finding} {out : List Finding}
    (hapart : out.Pairwise fun f g => belongsTo f g = false)
    (h : ∃ f ∈ out, belongsTo f g = true) : mergeInto g out = out.map (absorbed g) := by
  induction out with
  | nil => simp at h
  | cons f fs ih =>
      obtain ⟨hf, hfs⟩ := List.pairwise_cons.mp hapart
      rw [mergeInto, List.map_cons]
      by_cases hb : belongsTo f g = true
      · -- nobody else is of this group
        have hrest : fs.map (absorbed g) = fs := by
          refine (List.map_congr_left fun k hk => ?_).trans (List.map_id fs)
          rw [absorbed, if_neg]
          · rfl
          · intro hkg
            have hfk := belongsTo_trans hb (belongsTo_symm hkg)
            exact Bool.false_ne_true ((hf k hk).symm.trans hfk)
        rw [if_pos hb, hrest, absorbed, if_pos hb]
      · obtain ⟨k, hk, hkb⟩ := h
        rw [if_neg hb, absorbed, if_neg hb,
          ih hfs ⟨k, (List.mem_cons.mp hk).resolve_left fun heq => hb (heq ▸ hkb), hkb⟩]

theorem eraseDups_concat (items : List String) (item : String) :
    (items ++ [item]).eraseDups = addItems items.eraseDups [item] := by
  rw [List.eraseDups_append, addItems, List.foldl_cons, List.foldl_nil]
  by_cases h : item ∈ items
  · simp [h, List.removeAll, List.mem_eraseDups]
  · simp [h, List.removeAll, List.mem_eraseDups, List.eraseDups_cons]

/-- A finding of another group, or of none, changes no items. -/
theorem groupItems_concat_of_not {fs : List Finding} {g k : Finding} (h : belongsTo k g = false) :
    groupItems (fs ++ [g]) k = groupItems fs k := by
  rw [groupItems, List.filter_append, List.filter_cons_of_neg (by simp [h]), List.filter_nil,
    List.append_nil, groupItems]

/-- The items of a group when a finding with one item comes in. -/
theorem groupItems_concat {fs : List Finding} {g k : Finding} {m : MergeGroup} {item : String}
    (hm : g.merge = some m) (hitem : m.items = [item]) (h : belongsTo k g = true) :
    groupItems (fs ++ [g]) k = addItems (groupItems fs k) [item] := by
  have hown : itemsOf g = [item] := by rw [itemsOf, hm, Option.map_some, hitem, Option.getD_some]
  rw [groupItems, List.filter_append, List.flatMap_append, List.filter_cons_of_pos h,
    List.filter_nil, List.flatMap_singleton, hown, eraseDups_concat, groupItems]

namespace Gathers

variable {fs out : List Finding} {g : Finding}

/-- The first of its group. -/
theorem step_of_forall (h : Gathers fs out) (hg : Itemized g)
    (hnew : ∀ f ∈ out, belongsTo f g = false) : Gathers (fs ++ [g]) (out ++ [g]) where
  alone f hf hm := by
    rcases List.mem_append.mp hf with hf | hf
    · exact List.mem_append_left _ (h.alone f hf hm)
    · exact List.mem_append_right _ hf
  grouped f hf hm := by
    rcases List.mem_append.mp hf with hf | hf
    · obtain ⟨k, hk, hb⟩ := h.grouped f hf hm
      exact ⟨k, List.mem_append_left _ hk, hb⟩
    · rw [List.mem_singleton.mp hf] at hm ⊢
      exact ⟨g, List.mem_append_right _ List.mem_cons_self, belongsTo_self hm⟩
  known k hk hm := by
    rcases List.mem_append.mp hk with hk | hk
    · exact List.mem_append_left _ (h.known k hk hm)
    · exact List.mem_append_right _ hk
  backed k hk hm := by
    rcases List.mem_append.mp hk with hk | hk
    · obtain ⟨f, hf, hb⟩ := h.backed k hk hm
      exact ⟨f, List.mem_append_left _ hf, hb⟩
    · rw [List.mem_singleton.mp hk] at hm ⊢
      exact ⟨g, List.mem_append_right _ List.mem_cons_self, belongsTo_self hm⟩
  told k hk m hm := by
    rcases List.mem_append.mp hk with hk | hk
    · rw [groupItems_concat_of_not (hnew k hk)]
      exact h.told k hk m hm
    · rw [List.mem_singleton.mp hk] at hm ⊢
      obtain ⟨item, hitem, hmessage⟩ := hg m hm
      -- an earlier one of the group would have an heir in `out`
      have hnone : groupItems fs g = [] := by
        have : fs.filter (belongsTo g) = [] := by
          refine List.filter_eq_nil_iff.mpr fun f hf hgf => ?_
          obtain ⟨k, hk, hkf⟩ := h.grouped f hf (merge_ne_none_of_belongsTo hgf).2
          have hkg := belongsTo_trans hkf (belongsTo_symm hgf)
          exact Bool.false_ne_true ((hnew k hk).symm.trans hkg)
        rw [groupItems, this]
        rfl
      have hself : belongsTo g g = true := belongsTo_self (by simp [hm])
      rw [groupItems_concat hm hitem hself, hnone, hmessage]
      exact ⟨hitem, by simp [addItems, Text.join]⟩
  apart := by
    refine List.pairwise_append.mpr ⟨h.apart, List.pairwise_singleton .., fun f hf k hk => ?_⟩
    rw [List.mem_singleton.mp hk]
    exact hnew f hf

/-- One more of a group that is there. -/
theorem step_of_exists (h : Gathers fs out) (hg : Itemized g)
    (hold : ∃ f ∈ out, belongsTo f g = true) : Gathers (fs ++ [g]) (out.map (absorbed g)) := by
  obtain ⟨first, hfirst, hfg⟩ := hold
  obtain ⟨m, hm⟩ := Option.ne_none_iff_exists'.mp (merge_ne_none_of_belongsTo hfg).2
  obtain ⟨item, hitem, -⟩ := hg m hm
  exact
    { alone := by
        intro f hf hnone
        have hf : f ∈ fs := by
          refine (List.mem_append.mp hf).resolve_right fun heq => ?_
          rw [List.mem_singleton.mp heq, hm] at hnone
          cases hnone
        exact List.mem_map.mpr ⟨f, h.alone f hf hnone, absorbed_of_merge_eq_none hnone⟩
      grouped := by
        intro f hf hsome
        have : ∃ k ∈ out, belongsTo k f = true := by
          rcases List.mem_append.mp hf with hf | hf
          · exact h.grouped f hf hsome
          · exact ⟨first, hfirst, List.mem_singleton.mp hf ▸ hfg⟩
        obtain ⟨k, hk, hkf⟩ := this
        exact ⟨_, List.mem_map_of_mem hk, by rw [belongsTo_absorbed]; exact hkf⟩
      known := by
        intro _ hmem hnone
        obtain ⟨k, hk, rfl⟩ := List.mem_map.mp hmem
        have hnone := merge_absorbed_eq_none.mp hnone
        rw [absorbed_of_merge_eq_none hnone]
        exact List.mem_append_left _ (h.known k hk hnone)
      backed := by
        intro _ hmem hsome
        obtain ⟨k, hk, rfl⟩ := List.mem_map.mp hmem
        obtain ⟨f, hf, hkf⟩ := h.backed k hk fun hnone => hsome (merge_absorbed_eq_none.mpr hnone)
        exact ⟨f, List.mem_append_left _ hf, by rw [belongsTo_absorbed]; exact hkf⟩
      told := by
        intro _ hmem n hn
        obtain ⟨k, hk, rfl⟩ := List.mem_map.mp hmem
        have hitems : groupItems (fs ++ [g]) (absorbed g k) = groupItems (fs ++ [g]) k := by
          rw [groupItems, belongsTo_absorbed, groupItems]
        rw [hitems]
        rw [absorbed] at hn ⊢
        split at hn
        · rename_i hkg
          obtain ⟨a, ha⟩ := Option.ne_none_iff_exists'.mp (merge_ne_none_of_belongsTo hkg).1
          obtain ⟨htold, -⟩ := h.told k hk a ha
          rw [if_pos hkg, groupItems_concat hm hitem hkg]
          simp only [absorb, ha, hm, hitem, htold] at hn ⊢
          cases hn
          exact ⟨rfl, rfl⟩
        · rename_i hkg
          rw [if_neg hkg, groupItems_concat_of_not (Bool.eq_false_iff.mpr hkg)]
          exact h.told k hk n hn
      apart := by
        refine List.pairwise_map.mpr (h.apart.imp fun {a b} hab => ?_)
        rw [belongsTo_absorbed, Bool.eq_false_iff]
        intro hab'
        have hba := belongsTo_symm hab'
        rw [belongsTo_absorbed] at hba
        exact Bool.false_ne_true (hab.symm.trans (belongsTo_symm hba)) }

theorem step (h : Gathers fs out) (hg : Itemized g) : Gathers (fs ++ [g]) (mergeInto g out) := by
  by_cases hold : ∃ f ∈ out, belongsTo f g = true
  · rw [mergeInto_of_exists h.apart hold]
    exact h.step_of_exists hg hold
  · have hnew : ∀ f ∈ out, belongsTo f g = false := fun f hf =>
      Bool.eq_false_iff.mpr fun hb => hold ⟨f, hf, hb⟩
    rw [mergeInto_of_forall hnew]
    exact h.step_of_forall hg hnew

/-- The finding of a group says what the group has to say. -/
theorem says_group (h : Gathers fs out) {k f : Finding} (hk : k ∈ out)
    (hkf : belongsTo k f = true) {m : MergeGroup} (hm : f.merge = some m) :
    samePlace k f = true ∧ k.message = m.lead ++ Text.join ", " (groupItems fs f) := by
  obtain ⟨hplace, a, b, ha, hb, hlead⟩ := belongsTo_iff.mp hkf
  obtain rfl : m = b := Option.some.inj (hm.symm.trans hb)
  obtain ⟨-, hmessage⟩ := h.told k hk a ha
  refine ⟨hplace, ?_⟩
  rw [hmessage, hlead, groupItems, belongsTo_eq hkf, groupItems]

end Gathers

theorem merged_gathers {fs : List Finding} (h : ∀ f ∈ fs, Itemized f) : Gathers fs (merged fs) := by
  induction fs using List.reverseRecOn with
  | nil => exact ⟨by simp, by simp, by simp [merged], by simp [merged], by simp [merged],
      List.Pairwise.nil⟩
  | append_singleton fs g ih =>
      rw [merged, List.foldl_append]
      exact (ih fun f hf => h f (List.mem_append_left _ hf)).step
        (h g (List.mem_append_right _ List.mem_cons_self))

theorem mem_mergeInto_of_alone {f g : Finding} (hf : f.merge = none) {out : List Finding}
    (h : f = g ∨ f ∈ out) : f ∈ mergeInto g out := by
  induction out with
  | nil => exact List.mem_singleton.mpr (h.resolve_right List.not_mem_nil)
  | cons k out ih =>
      rw [mergeInto]
      split
      · rename_i hkg
        -- neither side of a merge is alone
        rcases h with rfl | h
        · exact ((merge_ne_none_of_belongsTo hkg).2 hf).elim
        · rcases List.mem_cons.mp h with rfl | h
          · exact ((merge_ne_none_of_belongsTo hkg).1 hf).elim
          · exact List.mem_cons_of_mem _ h
      · rw [List.mem_cons] at h ⊢
        rcases h with h | h | h
        · exact .inr (ih (.inl h))
        · exact .inl h
        · exact .inr (ih (.inr h))

/-- A finding without a group stays as it is, whatever the others are like. -/
theorem mem_merged_of_alone {f : Finding} (hf : f.merge = none) {fs : List Finding} (h : f ∈ fs) :
    f ∈ merged fs := by
  induction fs using List.reverseRecOn with
  | nil => cases h
  | append_singleton fs g ih =>
      rw [merged, List.foldl_append]
      apply mem_mergeInto_of_alone hf
      rcases List.mem_append.mp h with h | h
      · exact .inr (ih h)
      · exact .inl (List.mem_singleton.mp h)

/-! ### Repetitions -/

theorem distinct_concat (fs : List Finding) (g : Finding) :
    distinct (fs ++ [g]) =
      if (distinct fs).any (isRepeat · g) then distinct fs else distinct fs ++ [g] := by
  rw [distinct, List.foldl_append]
  rfl

theorem distinct_subset {fs : List Finding} {f : Finding} (h : f ∈ distinct fs) : f ∈ fs := by
  induction fs using List.reverseRecOn with
  | nil => exact h
  | append_singleton fs g ih =>
      rw [distinct_concat] at h
      split at h
      · exact List.mem_append_left _ (ih h)
      · exact (List.mem_append.mp h).elim (fun h => List.mem_append_left _ (ih h))
          (List.mem_append_right _)

theorem distinct_pairwise (fs : List Finding) :
    (distinct fs).Pairwise fun f g => isRepeat f g = false := by
  induction fs using List.reverseRecOn with
  | nil => exact List.Pairwise.nil
  | append_singleton fs g ih =>
      rw [distinct_concat]
      split
      · exact ih
      · rename_i hnew
        refine List.pairwise_append.mpr ⟨ih, List.pairwise_singleton .., fun f hf k hk => ?_⟩
        rw [List.mem_singleton.mp hk, Bool.eq_false_iff]
        exact fun hr => hnew (List.any_eq_true.mpr ⟨f, hf, hr⟩)

/-- What is left out is said by a finding that stays. -/
theorem exists_isRepeat_distinct {fs : List Finding} {f : Finding} (h : f ∈ fs) :
    ∃ g ∈ distinct fs, isRepeat g f = true := by
  induction fs using List.reverseRecOn with
  | nil => cases h
  | append_singleton fs g ih =>
      rw [distinct_concat]
      by_cases hr : (distinct fs).any (isRepeat · g) = true
      · rw [if_pos hr]
        rcases List.mem_append.mp h with h | h
        · exact ih h
        · rw [List.mem_singleton.mp h]
          exact List.any_eq_true.mp hr
      · rw [if_neg hr]
        rcases List.mem_append.mp h with h | h
        · obtain ⟨k, hk, hkf⟩ := ih h
          exact ⟨k, List.mem_append_left _ hk, hkf⟩
        · exact ⟨f, List.mem_append_right _ h, isRepeat_refl f⟩

/-! ### The order -/

def comparePlaces : Finding → Finding → Ordering :=
  compareLex (compareOn (·.location.file))
    (compareLex (compareOn (·.location.start)) (compareOn (·.issue.id)))

instance : TransCmp comparePlaces :=
  inferInstanceAs (TransCmp (compareLex _ (compareLex _ _)))

/-- By file, in a file by offset, and at one offset by issue. -/
def InOrder (f g : Finding) : Prop :=
  compare f.location.file g.location.file = .lt ∨
    f.location.file.components = g.location.file.components ∧
      (f.location.start < g.location.start ∨
        f.location.start = g.location.start ∧ f.issue.id ≤ g.issue.id)

theorem precedes_iff {f g : Finding} : precedes f g = true ↔ InOrder f g := by
  have hfile : compare f.location.file g.location.file = .eq ↔
      f.location.file.components = g.location.file.components := Path.compare_eq_eq_iff
  have hid : (compare f.issue.id g.issue.id).isLE = true ↔ f.issue.id ≤ g.issue.id := by
    rw [Ordering.isLE_iff_ne_gt, ← Std.not_lt, ← compare_gt_iff_gt]
  rw [precedes, InOrder, ← hfile, ← hid, ← Nat.compare_eq_lt, ← Nat.compare_eq_eq]
  cases compare f.location.file g.location.file <;>
    cases compare f.location.start g.location.start <;> simp

theorem precedes_trans (f g k : Finding) (h : precedes f g = true) (h' : precedes g k = true) :
    precedes f k = true :=
  @TransCmp.isLE_trans _ comparePlaces _ f g k h h'

theorem precedes_total (f g : Finding) : (precedes f g || precedes g f) = true := by
  have hswap : comparePlaces f g = (comparePlaces g f).swap := OrientedCmp.eq_swap
  change ((comparePlaces f g).isLE || (comparePlaces g f).isLE) = true
  rw [hswap]
  cases comparePlaces g f <;> rfl

/-! ### Reports -/

theorem findings_foldl_accept (fs : List Finding) (s : Sink) :
    (fs.foldl accept s).findings = s.findings ++ fs := by
  induction fs generalizing s with
  | nil => simp
  | cons f fs ih => rw [List.foldl_cons, ih, accept, List.append_assoc]; rfl

/-- The findings of the report on some findings. -/
theorem findings_finish (fs : List Finding) :
    (fs.foldl accept {}).finish.findings = (distinct (merged fs)).mergeSort precedes := by
  rw [finish, findings_foldl_accept]
  rfl

theorem mem_findings_finish {fs : List Finding} {f : Finding} :
    f ∈ (fs.foldl accept {}).finish.findings ↔ f ∈ distinct (merged fs) := by
  rw [findings_finish, List.mem_mergeSort]

theorem pairwise_findings_finish (s : Sink) :
    s.finish.findings.Pairwise fun f g => precedes f g = true :=
  List.pairwise_mergeSort precedes_trans precedes_total _

/-! ### Counts -/

/-- Of severities that occur, how often they do, in ascending order. -/
structure IsTally (counts : List (Severity × Nat)) (severities : List Severity) : Prop where
  ascending : counts.Pairwise fun a b => a.1.ctorIdx < b.1.ctorIdx
  lookup : ∀ s, counts.lookup s =
    if s ∈ severities then some (severities.count s) else none

theorem ctorIdx_lt_of_not_lt {s t : Severity} (hne : s ≠ t) (h : ¬ s.ctorIdx < t.ctorIdx) :
    t.ctorIdx < s.ctorIdx := by
  cases s <;> cases t <;> first | exact absurd rfl hne | exact absurd (by decide) h | decide

theorem mem_tally {s : Severity} {counts : List (Severity × Nat)} {e : Severity × Nat}
    (h : e ∈ tally s counts) : e.1 = s ∨ ∃ e' ∈ counts, e.1 = e'.1 := by
  induction counts with
  | nil => exact .inl (by rw [List.mem_singleton.mp h])
  | cons head counts ih =>
      obtain ⟨t, n⟩ := head
      rw [tally] at h
      split at h
      · rcases List.mem_cons.mp h with rfl | h
        · exact .inr ⟨_, List.mem_cons_self, rfl⟩
        · exact .inr ⟨e, List.mem_cons_of_mem _ h, rfl⟩
      · split at h
        · rcases List.mem_cons.mp h with rfl | h
          · exact .inl rfl
          · exact .inr ⟨e, h, rfl⟩
        · rcases List.mem_cons.mp h with rfl | h
          · exact .inr ⟨_, List.mem_cons_self, rfl⟩
          · refine (ih h).imp_right ?_
            rintro ⟨e', he', heq⟩
            exact ⟨e', List.mem_cons_of_mem _ he', heq⟩

theorem ascending_tally (s : Severity) {counts : List (Severity × Nat)}
    (h : counts.Pairwise fun a b => a.1.ctorIdx < b.1.ctorIdx) :
    (tally s counts).Pairwise fun a b => a.1.ctorIdx < b.1.ctorIdx := by
  induction counts with
  | nil => exact List.pairwise_singleton _ _
  | cons head counts ih =>
      obtain ⟨t, n⟩ := head
      obtain ⟨hhead, hrest⟩ := List.pairwise_cons.mp h
      rw [tally]
      split
      · exact List.pairwise_cons.mpr ⟨hhead, hrest⟩
      · split
        · rename_i hlt
          refine List.pairwise_cons.mpr ⟨fun e he => ?_, h⟩
          rcases List.mem_cons.mp he with rfl | he
          · exact hlt
          · exact Nat.lt_trans hlt (hhead e he)
        · rename_i hne hnot
          refine List.pairwise_cons.mpr ⟨fun e he => ?_, ih hrest⟩
          rcases mem_tally he with heq | ⟨e', he', heq⟩
          · rw [heq]
            exact ctorIdx_lt_of_not_lt hne hnot
          · rw [heq]
            exact hhead e' he'

theorem lookup_eq_none_of_lt {s : Severity} {counts : List (Severity × Nat)}
    (h : ∀ e ∈ counts, s.ctorIdx < e.1.ctorIdx) : counts.lookup s = none := by
  rw [List.lookup_eq_none_iff]
  intro e he
  refine bne_iff_ne.mpr ?_
  rintro rfl
  exact Nat.lt_irrefl _ (h e he)

theorem lookup_cons_eq (k t : Severity) (n : Nat) (counts : List (Severity × Nat)) :
    ((t, n) :: counts).lookup k = if k = t then some n else counts.lookup k := by
  rw [List.lookup_cons]
  by_cases hk : k = t
  · rw [hk, beq_self_eq_true, if_pos rfl]
  · rw [beq_eq_false_iff_ne.mpr hk, if_neg hk]

theorem lookup_tally (s : Severity) {counts : List (Severity × Nat)}
    (h : counts.Pairwise fun a b => a.1.ctorIdx < b.1.ctorIdx) (k : Severity) :
    (tally s counts).lookup k =
      if k = s then some ((counts.lookup s).getD 0 + 1) else counts.lookup k := by
  induction counts with
  | nil => rw [tally, lookup_cons_eq]; rfl
  | cons head counts ih =>
      obtain ⟨t, n⟩ := head
      obtain ⟨hhead, hrest⟩ := List.pairwise_cons.mp h
      rw [tally]
      split
      · rename_i hst
        subst hst
        simp only [lookup_cons_eq, if_true, Option.getD_some]
        split <;> rfl
      · rename_i hst
        split
        · -- what stands behind is greater, so the severity has not occurred yet
          rename_i hlt
          have hnone : counts.lookup s = none :=
            lookup_eq_none_of_lt fun e he => Nat.lt_trans hlt (hhead e he)
          simp only [lookup_cons_eq, hst, if_false, hnone, Option.getD_none]
        · simp only [lookup_cons_eq, hst, if_false, ih hrest]
          by_cases hk : k = s
          · simp only [hk, hst, if_true, if_false]
          · simp only [hk, if_false]

theorem IsTally.tally {counts : List (Severity × Nat)} {severities : List Severity}
    (h : IsTally counts severities) (s : Severity) :
    IsTally (Sink.tally s counts) (severities ++ [s]) where
  ascending := ascending_tally s h.ascending
  lookup k := by
    simp only [lookup_tally s h.ascending, h.lookup, List.count_append, List.mem_append,
      List.mem_singleton]
    by_cases hk : k = s
    · subst hk
      by_cases hmem : k ∈ severities <;> simp [hmem, List.count_eq_zero_of_not_mem]
    · have hnone : List.count k [s] = 0 := by simp [Ne.symm hk]
      simp only [hk, if_false, or_false, hnone, Nat.add_zero]

/-- The loop over the findings of a report counts their severities. -/
theorem isTally_foldl (fs : List Finding) :
    IsTally (fs.foldl (fun counts f => Sink.tally f.severity counts) [])
      (fs.map (·.severity)) := by
  induction fs using List.reverseRecOn with
  | nil => exact ⟨.nil, fun _ => rfl⟩
  | append_singleton fs f ih =>
      rw [List.foldl_append, List.map_append]
      exact ih.tally f.severity

theorem counts_finish_eq (s : Sink) : s.finish.counts =
    s.finish.findings.foldl (fun counts f => Sink.tally f.severity counts) [] := rfl

theorem counts_finish (s : Sink) :
    IsTally s.finish.counts (s.finish.findings.map (·.severity)) := isTally_foldl _

theorem count_finish (s : Sink) (severity : Severity) :
    s.finish.count severity = s.finish.findings.countP (·.severity == severity) := by
  have hcountP : s.finish.findings.countP (·.severity == severity) =
      (s.finish.findings.map (·.severity)).count severity := by
    rw [List.count, List.countP_map]
    rfl
  rw [Report.count, (counts_finish s).lookup, hcountP]
  split
  · rfl
  · rename_i hnot
    exact (List.count_eq_zero_of_not_mem hnot).symm

/-- A report is sorted and says nothing twice; it says what each finding
without a group says, and for each group one message with all its items; it
says nothing else; and it counts what it says. -/
theorem finish_says_each_finding_once {fs : List Finding} (h : ∀ f ∈ fs, Itemized f) :
    let report := (fs.foldl accept {}).finish
    report.findings.Pairwise InOrder ∧
    report.findings.Pairwise (fun f g => isRepeat f g = false) ∧
    (∀ f ∈ fs, f.merge = none → ∃ g ∈ report.findings, isRepeat g f = true) ∧
    (∀ f ∈ fs, ∀ m, f.merge = some m → ∃ g ∈ report.findings,
      samePlace g f = true ∧ g.message = m.lead ++ Text.join ", " (groupItems fs f)) ∧
    (∀ g ∈ report.findings,
      (∃ f ∈ fs, f.merge = none ∧ isRepeat g f = true) ∨
      ∃ f ∈ fs, ∃ m, f.merge = some m ∧
        samePlace g f = true ∧ g.message = m.lead ++ Text.join ", " (groupItems fs f)) ∧
    IsTally report.counts (report.findings.map (·.severity)) ∧
    ∀ s, (report.counts.lookup s).getD 0 = report.findings.countP (·.severity == s) := by
  have hgathers := merged_gathers h
  refine ⟨?_, ?_, fun f hf hnone => ?_, fun f hf m hm => ?_, fun g hg => ?_,
    counts_finish _, count_finish _⟩
  · exact (pairwise_findings_finish _).imp precedes_iff.mp
  · rw [findings_finish]
    -- being no repetition is symmetric, so the order does not matter
    refine (distinct_pairwise _).perm (List.mergeSort_perm _ _).symm fun {f g} hfg => ?_
    exact Bool.eq_false_iff.mpr fun hgf => Bool.false_ne_true (hfg.symm.trans (isRepeat_symm hgf))
  · obtain ⟨g, hg, hgf⟩ := exists_isRepeat_distinct (hgathers.alone f hf hnone)
    exact ⟨g, mem_findings_finish.mpr hg, hgf⟩
  · obtain ⟨k, hk, hkf⟩ := hgathers.grouped f hf (by simp [hm])
    obtain ⟨hplace, hmessage⟩ := hgathers.says_group hk hkf hm
    obtain ⟨g, hg, hgk⟩ := exists_isRepeat_distinct hk
    obtain ⟨hgplace, hgmessage⟩ := isRepeat_iff.mp hgk
    exact ⟨g, mem_findings_finish.mpr hg, samePlace_trans hgplace hplace,
      hgmessage.trans hmessage⟩
  · have hg := distinct_subset (mem_findings_finish.mp hg)
    cases hmerge : g.merge with
    | none => exact .inl ⟨g, hgathers.known g hg hmerge, hmerge, isRepeat_refl g⟩
    | some a =>
        obtain ⟨f, hf, hgf⟩ := hgathers.backed g hg (by simp [hmerge])
        obtain ⟨m, hm⟩ := Option.ne_none_iff_exists'.mp (merge_ne_none_of_belongsTo hgf).2
        exact .inr ⟨f, hf, m, hm, hgathers.says_group hg hgf hm⟩

def missingCase (name : String) : Finding :=
  { Finding.new Issue.lintError default ("Missing " ++ name) with
    merge := some { lead := "Missing ", items := [name] } }

/-- Findings of one group, with a repetition, and a finding without a group
that says what they say together. -/
def missingCases : List Finding :=
  [missingCase "A", missingCase "B", Finding.new Issue.lintError default "Missing A, B",
    missingCase "A"]

theorem finish_missingCases :
    (∀ f ∈ missingCases, Itemized f) ∧
      ∃ g ∈ (missingCases.foldl accept {}).finish.findings,
        samePlace g (missingCase "A") = true ∧ g.message = "Missing A, B" := by
  have hitemized : ∀ f ∈ missingCases, Itemized f := by
    have hcase : ∀ name, Itemized (missingCase name) := by
      intro name m hm
      cases hm
      exact ⟨name, rfl, rfl⟩
    have hplain : Itemized (Finding.new Issue.lintError default "Missing A, B") := by
      intro m hm
      cases hm
    simp only [missingCases, List.forall_mem_cons]
    exact ⟨hcase _, hcase _, hplain, hcase _, by simp⟩
  have hitems : groupItems missingCases (missingCase "A") = ["A", "B"] := by decide +kernel
  obtain ⟨-, -, -, hgroups, -⟩ := finish_says_each_finding_once hitemized
  obtain ⟨g, hg, hplace, hmessage⟩ := hgroups (missingCase "A") List.mem_cons_self _ rfl
  refine ⟨hitemized, g, hg, hplace, ?_⟩
  rw [hmessage, hitems]
  rfl

end Sink

end LintEngine
