import LintEngine.Proofs.Report.Gathering

/-!
Making a report and selecting findings by their place can be done in either
order, where the place is the file, the text there and the issue. Merging and
leaving out repetitions never look beyond one place, and sorting is stable. So
what a report says at one place with one beginning depends on what came in there,
and it is one list of all items.
-/

namespace LintEngine

namespace Sink

/-! ### Sorting and selecting -/

section

variable {α : Type} {le : α → α → Bool}

/-- A list is cut in one way only into elements that do not follow `a` and
elements that do. -/
theorem takeWhile_cut {a : α} {front back : List α} (hfront : ∀ b ∈ front, le a b = false)
    (hback : ∀ b ∈ back, le a b = true) : (front ++ back).takeWhile (!le a ·) = front := by
  have hnil : back.takeWhile (!le a ·) = [] := by
    cases back with
    | nil => rfl
    | cons b back => simp [hback b]
  rw [List.takeWhile_append_of_pos (by simpa using hfront), hnil, List.append_nil]

theorem filter_mergeSort (trans : ∀ a b c, le a b = true → le b c = true → le a c = true)
    (total : ∀ a b, (le a b || le b a) = true) (p : α → Bool) (l : List α) :
    (l.mergeSort le).filter p = (l.filter p).mergeSort le := by
  induction l with
  | nil => simp
  | cons a l ih =>
      obtain ⟨front, back, hcons, hl, hfront⟩ := List.mergeSort_cons trans total a l
      have hback : ∀ b ∈ back, le a b = true := by
        have hsorted := List.pairwise_mergeSort trans total (a :: l)
        rw [hcons, List.pairwise_append] at hsorted
        exact (List.pairwise_cons.mp hsorted.2.1).1
      rw [hcons, List.filter_append]
      by_cases ha : p a = true
      · obtain ⟨front', back', hcons', hl', hfront'⟩ :=
          List.mergeSort_cons trans total a (l.filter p)
        have hback' : ∀ b ∈ back', le a b = true := by
          have hsorted := List.pairwise_mergeSort trans total (a :: l.filter p)
          rw [hcons', List.pairwise_append] at hsorted
          exact (List.pairwise_cons.mp hsorted.2.1).1
        -- both cut the same list at the place of `a`
        have hsame : front.filter p ++ back.filter p = front' ++ back' := by
          rw [← List.filter_append, ← hl, ih, hl']
        have hcut : (front.filter p ++ back.filter p).takeWhile (!le a ·) = front.filter p :=
          takeWhile_cut (fun b hb => by simpa using hfront b (List.mem_filter.mp hb).1)
            fun b hb => hback b (List.mem_filter.mp hb).1
        have hcut' : (front' ++ back').takeWhile (!le a ·) = front' :=
          takeWhile_cut (fun b hb => by simpa using hfront' b hb) hback'
        have hfront_eq : front.filter p = front' := by rw [← hcut, hsame, hcut']
        rw [hfront_eq] at hsame ⊢
        rw [List.filter_cons_of_pos ha, List.filter_cons_of_pos ha, hcons',
          List.append_cancel_left hsame]
      · rw [List.filter_cons_of_neg ha, List.filter_cons_of_neg ha, ← List.filter_append, ← hl, ih]

end

/-! ### Merging, repetitions and selecting -/

section

theorem samePlace_absorb (f g : Finding) : samePlace (absorb f g) f = true := by
  rw [absorb]
  split <;> exact samePlace_refl f

theorem merge_absorb_isSome (f g : Finding) : (absorb f g).merge.isSome = f.merge.isSome := by
  rw [absorb]
  split
  · rename_i hf _
    rw [hf]
    rfl
  · rfl

variable {p : Finding → Bool}

/-- A selection that tells neither the findings of a group apart nor what is made
of them can be made before merging. -/
theorem filter_mergeInto (hp : ∀ f g, belongsTo f g = true → p f = p g ∧ p (absorb f g) = p g)
    (g : Finding) (out : List Finding) :
    (mergeInto g out).filter p =
      if p g then mergeInto g (out.filter p) else out.filter p := by
  induction out with
  | nil => rw [mergeInto, List.filter_cons]; rfl
  | cons f fs ih =>
      rw [mergeInto]
      by_cases hb : belongsTo f g = true
      · obtain ⟨hfg, habsorb⟩ := hp f g hb
        rw [if_pos hb, List.filter_cons, List.filter_cons, habsorb, hfg]
        split
        · rw [mergeInto, if_pos hb]
        · rfl
      · rw [if_neg hb, List.filter_cons, List.filter_cons, ih]
        split <;> split
        · rw [mergeInto, if_neg hb]
        · rfl
        · rfl
        · rfl

theorem filter_merged (hp : ∀ f g, belongsTo f g = true → p f = p g ∧ p (absorb f g) = p g)
    (fs : List Finding) : (merged fs).filter p = merged (fs.filter p) := by
  induction fs using List.reverseRecOn with
  | nil => rfl
  | append_singleton fs g ih =>
      rw [merged, List.foldl_append, List.foldl_cons, List.foldl_nil, filter_mergeInto hp,
        List.filter_append, List.filter_cons, List.filter_nil]
      split
      · rw [merged, List.foldl_append]
        exact congrArg (mergeInto g) ih
      · rw [List.append_nil]
        exact ih

/-- A selection by what is said where can be made before repetitions are left
out. -/
theorem filter_distinct (hp : ∀ f g, isRepeat f g = true → p f = p g) (fs : List Finding) :
    (distinct fs).filter p = distinct (fs.filter p) := by
  induction fs using List.reverseRecOn with
  | nil => rfl
  | append_singleton fs g ih =>
      rw [distinct_concat, List.filter_append, List.filter_cons, List.filter_nil]
      by_cases hg : p g = true
      · -- whatever `g` repeats is selected with it
        have hany : (distinct fs).any (isRepeat · g) =
            ((distinct fs).filter p).any (isRepeat · g) := by
          rw [Bool.eq_iff_iff, List.any_eq_true, List.any_eq_true]
          refine ⟨fun ⟨f, hf, hr⟩ => ⟨f, List.mem_filter.mpr ⟨hf, ?_⟩, hr⟩,
            fun ⟨f, hf, hr⟩ => ⟨f, (List.mem_filter.mp hf).1, hr⟩⟩
          rw [hp f g hr, hg]
        rw [if_pos hg, distinct_concat, ← ih, ← hany]
        split
        · rfl
        · rw [List.filter_append, List.filter_cons, if_pos hg, List.filter_nil]
      · rw [if_neg hg, List.append_nil, ← ih]
        split
        · rfl
        · rw [List.filter_append, List.filter_cons, if_neg hg, List.filter_nil, List.append_nil]

variable (hp : ∀ f g, samePlace f g = true → p f = p g)

include hp

theorem filter_distinct_merged (fs : List Finding) :
    (distinct (merged fs)).filter p = distinct (merged (fs.filter p)) := by
  rw [filter_distinct fun f g h => hp f g (isRepeat_iff.mp h).1, filter_merged fun f g h => ?_]
  have hfg : p f = p g := hp f g (belongsTo_iff.mp h).1
  exact ⟨hfg, (hp _ _ (samePlace_absorb f g)).trans hfg⟩

/-- A selection from a report is the report on a selection. -/
theorem filter_finish (s : Sink) :
    s.finish.findings.filter p =
      (distinct (merged (s.findings.filter p))).mergeSort precedes := by
  rw [finish, filter_mergeSort precedes_trans precedes_total, filter_distinct_merged hp]

end

/-! ### One group at one place -/

def listing (lead : String) (items : List String) : List String :=
  if items = [] then [] else [lead ++ Text.join ", " items]

/-- A finding with a group that has this beginning, or with none and a message
that begins in another way. -/
structure KeepsToLead (lead : String) (f : Finding) : Prop where
  itemized : Itemized f
  lead_eq : ∀ m ∈ f.merge, m.lead = lead
  alone : f.merge = none → ¬lead.toList <+: f.message.toList

section

variable {lead : String} {fs : List Finding}

theorem length_listing (lead : String) (items : List String) : (listing lead items).length ≤ 1 := by
  rw [listing]
  split <;> simp

/-- Items of one and the same are listed once. -/
theorem eraseDups_flatMap {α : Type} {l : List α} {a : α} (ha : a ∈ l) (hall : ∀ b ∈ l, b = a)
    (items : α → List String) : (l.flatMap items).eraseDups = (items a).eraseDups := by
  cases l with
  | nil => cases ha
  | cons b l =>
      obtain ⟨rfl, hrest⟩ := List.forall_mem_cons.mp hall
      have hnone : (l.flatMap items).removeAll (items b) = [] := by
        refine List.filter_eq_nil_iff.mpr fun x hx => ?_
        obtain ⟨c, hc, hx⟩ := List.mem_flatMap.mp hx
        rw [hrest c hc] at hx
        simpa using hx
      rw [List.flatMap_cons, List.eraseDups_append, hnone, List.eraseDups_nil, List.append_nil]

/-- Findings without a group have no items. -/
theorem flatMap_itemsOf_filter (fs : List Finding) :
    (fs.filter (·.merge.isSome)).flatMap itemsOf = fs.flatMap itemsOf := by
  induction fs with
  | nil => rfl
  | cons f fs ih =>
      rw [List.filter_cons, List.flatMap_cons, ← ih]
      cases hmerge : f.merge with
      | none => simp [itemsOf, hmerge]
      | some m => rfl

/-- All findings of one group become one. -/
theorem map_message_merged (hitemized : ∀ f ∈ fs, Itemized f)
    (hlead : ∀ f ∈ fs, ∃ m, f.merge = some m ∧ m.lead = lead)
    (hplace : ∀ f ∈ fs, ∀ g ∈ fs, samePlace f g = true) :
    (distinct (merged fs)).map (·.message) = listing lead (fs.flatMap itemsOf).eraseDups := by
  have hgroup : ∀ f ∈ fs, ∀ g ∈ fs, belongsTo f g = true := by
    intro f hf g hg
    obtain ⟨a, ha, halead⟩ := hlead f hf
    obtain ⟨b, hb, hblead⟩ := hlead g hg
    exact belongsTo_iff.mpr ⟨hplace f hf g hg, a, b, ha, hb, halead.trans hblead.symm⟩
  have hgathers := merged_gathers hitemized
  by_cases hnil : fs = []
  · rw [hnil]
    rfl
  · obtain ⟨f, hf⟩ := List.exists_mem_of_ne_nil fs hnil
    obtain ⟨m, hm, rfl⟩ := hlead f hf
    obtain ⟨k, hk, hkf⟩ := hgathers.grouped f hf (by simp [hm])
    have hjoined : ∀ g ∈ merged fs, belongsTo g f = true := by
      intro g hg
      have hmerge : g.merge ≠ none := by
        intro hnone
        obtain ⟨m, hm, -⟩ := hlead g (hgathers.known g hg hnone)
        rw [hm] at hnone
        cases hnone
      obtain ⟨f', hf', hgf'⟩ := hgathers.backed g hg hmerge
      exact belongsTo_trans hgf' (hgroup f' hf' f hf)
    have hsingle : merged fs = [k] := by
      have hapart := hgathers.apart
      rcases hout : merged fs with _ | ⟨a, _ | ⟨b, out⟩⟩
      · rw [hout] at hk
        cases hk
      · rw [hout] at hk
        rw [List.mem_singleton.mp hk]
      · rw [hout] at hapart hjoined
        have hab := (List.pairwise_cons.mp hapart).1 b List.mem_cons_self
        have hab' := belongsTo_trans (hjoined a List.mem_cons_self)
          (belongsTo_symm (hjoined b (List.mem_cons_of_mem _ List.mem_cons_self)))
        exact absurd (hab.symm.trans hab') Bool.false_ne_true
    have hitems : groupItems fs f = (fs.flatMap itemsOf).eraseDups := by
      rw [groupItems, List.filter_eq_self.mpr (hgroup f hf)]
    have hsome : (fs.flatMap itemsOf).eraseDups ≠ [] := by
      obtain ⟨item, hitem, -⟩ := hitemized f hf m hm
      have hmem : item ∈ (fs.flatMap itemsOf).eraseDups := by
        refine List.mem_eraseDups.mpr (List.mem_flatMap.mpr ⟨f, hf, ?_⟩)
        rw [itemsOf, hm, Option.map_some, hitem]
        exact List.mem_cons_self
      exact List.ne_nil_of_mem hmem
    rw [hsingle, listing, if_neg hsome, ← hitems, ← (hgathers.says_group hk hkf hm).2]
    rfl

/-- Where all findings keep to one beginning, it is that of the findings with a
group. -/
theorem filter_lead (h : ∀ f ∈ fs, KeepsToLead lead f) :
    (distinct (merged fs)).filter (fun f => lead.toList <+: f.message.toList) =
      distinct (merged (fs.filter (·.merge.isSome))) := by
  have hgathers := merged_gathers fun f hf => (h f hf).itemized
  have hsays : ∀ f ∈ merged fs,
      decide (lead.toList <+: f.message.toList) = f.merge.isSome := by
    intro f hf
    cases hmerge : f.merge with
    | none => exact decide_eq_false ((h f (hgathers.known f hf hmerge)).alone hmerge)
    | some a =>
        obtain ⟨g, hg, hfg⟩ := hgathers.backed f hf (by simp [hmerge])
        obtain ⟨m, hm⟩ := Option.ne_none_iff_exists'.mp (merge_ne_none_of_belongsTo hfg).2
        rw [(hgathers.says_group hf hfg hm).2, (h g hg).lead_eq m hm, String.toList_append]
        exact decide_eq_true (List.prefix_append ..)
  rw [filter_distinct fun f g hr => by rw [(isRepeat_iff.mp hr).2], List.filter_congr hsays,
    filter_merged fun f g hb => ?_]
  obtain ⟨-, a, b, ha, hb, -⟩ := belongsTo_iff.mp hb
  rw [merge_absorb_isSome, ha, hb]
  exact ⟨rfl, rfl⟩

/-- What a report says at one place with one beginning: a list of all items, each
where it was first seen. -/
theorem map_message_filter {place : Finding → Bool}
    (hplace : ∀ f g, samePlace f g = true → place f = place g)
    (hone : ∀ f g, place f = true → place g = true → samePlace f g = true)
    (h : ∀ f ∈ fs, place f = true → KeepsToLead lead f) :
    ((((distinct (merged fs)).mergeSort precedes).filter place).filter fun f =>
        lead.toList <+: f.message.toList).map (·.message) =
      listing lead ((fs.filter place).flatMap itemsOf).eraseDups := by
  have hkeeps : ∀ f ∈ fs.filter place, KeepsToLead lead f := by
    intro f hf
    obtain ⟨hf, hat⟩ := List.mem_filter.mp hf
    exact h f hf hat
  have hmessages : (distinct (merged ((fs.filter place).filter (·.merge.isSome)))).map
      (·.message) = listing lead ((fs.filter place).flatMap itemsOf).eraseDups := by
    rw [← flatMap_itemsOf_filter]
    refine map_message_merged ?_ ?_ ?_
    · exact fun f hf => (hkeeps f (List.mem_filter.mp hf).1).itemized
    · intro f hf
      obtain ⟨hf, hmerge⟩ := List.mem_filter.mp hf
      obtain ⟨m, hm⟩ := Option.isSome_iff_exists.mp hmerge
      exact ⟨m, hm, (hkeeps f hf).lead_eq m hm⟩
    · intro f hf g hg
      exact hone f g (List.mem_filter.mp (List.mem_filter.mp hf).1).2
        (List.mem_filter.mp (List.mem_filter.mp hg).1).2
  rw [filter_mergeSort precedes_trans precedes_total,
    filter_mergeSort precedes_trans precedes_total, filter_distinct_merged hplace, filter_lead hkeeps, ← hmessages]
  -- there is nothing to sort
  have hlength := congrArg List.length hmessages
  rw [List.length_map] at hlength
  have hshort := length_listing lead ((fs.filter place).flatMap itemsOf).eraseDups
  generalize distinct (merged ((fs.filter place).filter (·.merge.isSome))) = out at hlength
  rcases out with _ | ⟨f, _ | ⟨g, out⟩⟩
  · rw [List.mergeSort_nil]
  · rw [List.mergeSort_singleton]
  · rw [← hlength] at hshort
    simp at hshort

end

end Sink

end LintEngine
