import LintEngine.Text.Basic
import Mathlib.Data.List.Basic
import Mathlib.Data.List.TakeWhile

/-!
Fields of a text. A text without a separator is one field; the first and the last
field of a longer one are cut off at a separator, and putting the pieces together
again gives the text. Of all fields, one is known by what stands before it: the
number of separators there is its position.
-/

namespace LintEngine.Text

variable {sep : Char}

/-! ### Runs up to a separator -/

theorem takeWhile_of_not_mem {cs : List Char} (h : sep ∉ cs) : cs.takeWhile (· != sep) = cs :=
  List.takeWhile_eq_self_iff.mpr fun _ hc => bne_iff_ne.mpr (ne_of_mem_of_not_mem hc h)

theorem dropWhile_of_not_mem {cs : List Char} (h : sep ∉ cs) : cs.dropWhile (· != sep) = [] :=
  List.dropWhile_eq_nil_iff.mpr fun _ hc => bne_iff_ne.mpr (ne_of_mem_of_not_mem hc h)

theorem takeWhile_append_sep {cs : List Char} (h : sep ∉ cs) (rest : List Char) :
    (cs ++ sep :: rest).takeWhile (· != sep) = cs := by
  rw [List.takeWhile_append_of_pos fun _ hc => bne_iff_ne.mpr (ne_of_mem_of_not_mem hc h)]
  simp

theorem dropWhile_append_sep {cs : List Char} (h : sep ∉ cs) (rest : List Char) :
    (cs ++ sep :: rest).dropWhile (· != sep) = sep :: rest := by
  rw [List.dropWhile_append_of_pos fun _ hc => bne_iff_ne.mpr (ne_of_mem_of_not_mem hc h)]
  simp

theorem eq_of_append_sep {xs ys xs' ys' : List Char} (hys : sep ∉ ys) (hys' : sep ∉ ys')
    (h : xs ++ sep :: ys = xs' ++ sep :: ys') : xs = xs' := by
  have hlast := congrArg (fun cs => cs.reverse.takeWhile (· != sep)) h
  simp only [List.reverse_append, List.reverse_cons, List.append_assoc, List.singleton_append,
    takeWhile_append_sep (mt List.mem_reverse.mp hys),
    takeWhile_append_sep (mt List.mem_reverse.mp hys'), List.reverse_inj] at hlast
  rw [hlast] at h
  exact List.append_cancel_right h

section

variable {p : Char → Bool} {xs ys : List Char}

theorem takeWhile_append_of_head (hxs : ∀ c ∈ xs, p c = true)
    (hys : ∀ c ∈ ys.head?, p c = false) : (xs ++ ys).takeWhile p = xs := by
  rw [List.takeWhile_append_of_pos hxs]
  cases ys with
  | nil => simp
  | cons c ys => simp [hys c rfl]

theorem dropWhile_append_of_head (hxs : ∀ c ∈ xs, p c = true)
    (hys : ∀ c ∈ ys.head?, p c = false) : (xs ++ ys).dropWhile p = ys := by
  rw [List.dropWhile_append_of_pos hxs]
  cases ys with
  | nil => rfl
  | cons c ys => simp [hys c rfl]

end

theorem toList_append_sep (s t : String) :
    (s ++ String.singleton sep ++ t).toList = s.toList ++ sep :: t.toList := by
  simp

theorem reverse_append_sep (s t : String) :
    (s ++ String.singleton sep ++ t).toList.reverse =
      t.toList.reverse ++ sep :: s.toList.reverse := by
  simp

/-! ### The last field -/

theorem lastField_of_not_mem {t : String} (h : sep ∉ t.toList) : lastField sep t = t := by
  rw [lastField, takeWhile_of_not_mem (mt List.mem_reverse.mp h), List.reverse_reverse,
    String.ofList_toList]

theorem lastField_append (s : String) {t : String} (h : sep ∉ t.toList) :
    lastField sep (s ++ String.singleton sep ++ t) = t := by
  rw [lastField, reverse_append_sep, takeWhile_append_sep (mt List.mem_reverse.mp h),
    List.reverse_reverse, String.ofList_toList]

theorem splitLast?_of_not_mem {t : String} (h : sep ∉ t.toList) : splitLast? sep t = none := by
  rw [splitLast?, dropWhile_of_not_mem (mt List.mem_reverse.mp h)]

theorem splitLast?_append (s : String) {t : String} (h : sep ∉ t.toList) :
    splitLast? sep (s ++ String.singleton sep ++ t) = some (s, t) := by
  rw [splitLast?, reverse_append_sep, dropWhile_append_sep (mt List.mem_reverse.mp h),
    lastField_append s h]
  simp

theorem exists_last_of_mem {s : String} (h : sep ∈ s.toList) :
    ∃ front last, s = front ++ String.singleton sep ++ last ∧ sep ∉ last.toList := by
  obtain ⟨last, front, hs, hlast⟩ := List.eq_append_cons_of_mem (List.mem_reverse.mpr h)
  refine ⟨String.ofList front.reverse, String.ofList last.reverse, ?_, by simpa using hlast⟩
  rw [← String.toList_inj, ← List.reverse_inj, hs, reverse_append_sep]
  simp

/-- The last field of a text is the text itself, or stands behind a separator. -/
theorem lastField_eq_iff {s t : String} (h : sep ∉ t.toList) :
    lastField sep s = t ↔ s = t ∨ ∃ front, s = front ++ String.singleton sep ++ t := by
  constructor
  · rintro rfl
    by_cases hs : sep ∈ s.toList
    · obtain ⟨front, last, rfl, hlast⟩ := exists_last_of_mem hs
      exact .inr ⟨front, by rw [lastField_append front hlast]⟩
    · exact .inl (lastField_of_not_mem hs).symm
  · rintro (rfl | ⟨front, rfl⟩)
    · exact lastField_of_not_mem h
    · exact lastField_append front h

/-! ### The first field -/

theorem splitOnce?_of_not_mem {s : String} (h : sep ∉ s.toList) : splitOnce? sep s = none := by
  rw [splitOnce?, dropWhile_of_not_mem h]

theorem splitOnce?_append {s : String} (h : sep ∉ s.toList) (t : String) :
    splitOnce? sep (s ++ String.singleton sep ++ t) = some (s, t) := by
  rw [splitOnce?, toList_append_sep, dropWhile_append_sep h, takeWhile_append_sep h]
  simp

theorem exists_first_of_mem {s : String} (h : sep ∈ s.toList) :
    ∃ first rest, s = first ++ String.singleton sep ++ rest ∧ sep ∉ first.toList := by
  obtain ⟨first, rest, hs, hfirst⟩ := List.eq_append_cons_of_mem h
  refine ⟨String.ofList first, String.ofList rest, ?_, by simpa using hfirst⟩
  rw [← String.toList_inj, hs, toList_append_sep]
  simp

/-! ### All fields -/

section

variable {p : Char → Bool}

theorem splitChars_ne_nil (p : Char → Bool) (cs : List Char) : splitChars p cs ≠ [] := by
  cases cs with
  | nil => simp [splitChars]
  | cons x cs =>
      rw [splitChars]
      split
      · simp
      · split <;> simp

theorem splitChars_of_forall {cs : List Char} (h : ∀ c ∈ cs, p c = false) :
    splitChars p cs = [cs] := by
  induction cs with
  | nil => rfl
  | cons c cs ih =>
      obtain ⟨hc, hcs⟩ := List.forall_mem_cons.mp h
      simp only [splitChars, hc, ih hcs, Bool.false_eq_true, if_false]

theorem exists_splitChars_eq_concat (p : Char → Bool) (cs : List Char) :
    ∃ fields field, splitChars p cs = fields ++ [field] :=
  ⟨_, _, (List.dropLast_append_getLast (splitChars_ne_nil p cs)).symm⟩

/-- Where two texts meet, the last field of one and the first of the other become
one field. -/
theorem splitChars_append {xs ys field rest : List Char} {fields later : List (List Char)}
    (hxs : splitChars p xs = fields ++ [field]) (hys : splitChars p ys = rest :: later) :
    splitChars p (xs ++ ys) = fields ++ (field ++ rest) :: later := by
  induction xs generalizing fields field with
  | nil =>
      obtain ⟨rfl, rfl⟩ : fields = [] ∧ field = [] := by
        cases fields <;> simp_all [splitChars]
      exact hys
  | cons x xs ih =>
      obtain ⟨fields', field', htail⟩ := exists_splitChars_eq_concat p xs
      rw [List.cons_append, splitChars, ih htail]
      rw [splitChars, htail] at hxs
      split
      · rename_i hx
        rw [if_pos hx] at hxs
        obtain ⟨rfl, hfield⟩ :=
          List.append_inj' (show ([] :: fields') ++ [field'] = _ from hxs) rfl
        obtain rfl := List.singleton_inj.mp hfield
        rfl
      · rename_i hx
        rw [if_neg hx] at hxs
        cases fields' with
        | nil =>
            obtain ⟨rfl, hfield⟩ :=
              List.append_inj' (show [] ++ [x :: field'] = _ from hxs) rfl
            obtain rfl := List.singleton_inj.mp hfield
            rfl
        | cons w ws =>
            obtain ⟨rfl, hfield⟩ :=
              List.append_inj' (show ((x :: w) :: ws) ++ [field'] = _ from hxs) rfl
            obtain rfl := List.singleton_inj.mp hfield
            rfl

/-- Fields on the two sides of a separator have nothing to do with each other. -/
theorem splitChars_append_cons {c : Char} (hc : p c = true) (xs ys : List Char) :
    splitChars p (xs ++ c :: ys) = splitChars p xs ++ splitChars p ys := by
  obtain ⟨fields, field, hxs⟩ := exists_splitChars_eq_concat p xs
  have hys : splitChars p (c :: ys) = [] :: splitChars p ys := by rw [splitChars, if_pos hc]
  rw [splitChars_append hxs hys, hxs]
  simp

theorem split_join {parts : List String} (hne : parts ≠ []) (h : ∀ w ∈ parts, sep ∉ w.toList) :
    split sep (join (String.singleton sep) parts) = parts := by
  induction parts with
  | nil => exact absurd rfl hne
  | cons w ws ih =>
      obtain ⟨hw, hws⟩ := List.forall_mem_cons.mp h
      have hfield : splitChars (· == sep) w.toList = [w.toList] :=
        splitChars_of_forall fun c hc => beq_eq_false_iff_ne.mpr (ne_of_mem_of_not_mem hc hw)
      cases ws with
      | nil => rw [join, String.intercalate_singleton, split, hfield, List.map_singleton,
          String.ofList_toList]
      | cons w' ws =>
          have hrest := ih (List.cons_ne_nil _ _) hws
          rw [split] at hrest ⊢
          rw [join, String.intercalate_cons_cons, toList_append_sep,
            splitChars_append_cons (p := (· == sep)) (beq_self_eq_true sep), hfield,
            List.singleton_append, List.map_cons, String.ofList_toList]
          exact congrArg (w :: ·) hrest

theorem length_splitChars (p : Char → Bool) (cs : List Char) :
    (splitChars p cs).length = cs.countP p + 1 := by
  induction cs with
  | nil => rfl
  | cons c cs ih =>
      rw [splitChars]
      by_cases hc : p c = true
      · simp [hc, ih]
      · rw [if_neg hc, List.countP_cons_of_neg hc, ← ih]
        split <;> simp_all

theorem mem_splitChars {c : Char} {cs : List Char} (h : c ∈ cs) :
    p c = true ∨ ∃ w ∈ splitChars p cs, c ∈ w := by
  induction cs with
  | nil => cases h
  | cons x cs ih =>
      rw [splitChars]
      split
      · rename_i hx
        rcases List.mem_cons.mp h with rfl | h
        · exact .inl hx
        · refine (ih h).imp_right ?_
          rintro ⟨w, hw, hc⟩
          exact ⟨w, List.mem_cons_of_mem _ hw, hc⟩
      · split
        · rename_i hnil
          rw [hnil] at ih
          rcases List.mem_cons.mp h with rfl | h
          · exact .inr ⟨_, List.mem_cons_self, List.mem_cons_self⟩
          · refine (ih h).imp_right ?_
            rintro ⟨w, ⟨⟩, -⟩
        · rename_i w ws hcons
          rw [hcons] at ih
          rcases List.mem_cons.mp h with rfl | h
          · exact .inr ⟨_, List.mem_cons_self, List.mem_cons_self⟩
          · refine (ih h).imp_right ?_
            rintro ⟨w', hw', hc⟩
            rcases List.mem_cons.mp hw' with rfl | hw'
            · exact ⟨_, List.mem_cons_self, List.mem_cons_of_mem _ hc⟩
            · exact ⟨w', List.mem_cons_of_mem _ hw', hc⟩

theorem not_separator_of_getLast? {c : Char} {cs : List Char}
    (h : ∀ w ∈ (splitChars p cs).tail, w ≠ []) (hc : cs.getLast? = some c) : p c = false := by
  induction cs with
  | nil => cases hc
  | cons x cs ih =>
      rw [splitChars] at h
      split at h
      · cases cs with
        | nil => exact absurd rfl (h [] List.mem_cons_self)
        | cons y cs =>
            rw [List.getLast?_cons_cons] at hc
            exact ih (fun w hw => h w (List.mem_of_mem_tail hw)) hc
      · rename_i hx
        have htail : ∀ w ∈ (splitChars p cs).tail, w ≠ [] := by
          split at h
          · rename_i hnil
            simp [hnil]
          · rename_i hcons
            rw [hcons]
            exact h
        cases cs with
        | nil =>
            cases hc
            exact Bool.eq_false_iff.mpr hx
        | cons y cs =>
            rw [List.getLast?_cons_cons] at hc
            exact ih htail hc

/-- The field at a position, counted from 0: no separator stands in it, one
stands on either side of it unless the text ends there, and as many stand before
it as the position says. -/
def IsFieldAt (p : Char → Bool) (cs : List Char) (k : Nat) (field : List Char) : Prop :=
  ∃ before after, cs = before ++ field ++ after ∧ (∀ c ∈ field, p c = false) ∧
    (∀ c ∈ before.getLast?, p c = true) ∧ (∀ c ∈ after.head?, p c = true) ∧
    before.countP p = k

theorem getElem?_of_isFieldAt {cs field : List Char} {k : Nat} (h : IsFieldAt p cs k field) :
    (splitChars p cs)[k]? = some field := by
  obtain ⟨before, after, rfl, hfield, hbefore, hafter, rfl⟩ := h
  have hfirst : (splitChars p (field ++ after))[0]? = some field := by
    cases after with
    | nil => simp [splitChars_of_forall hfield]
    | cons c after =>
        rw [splitChars_append_cons (hafter c rfl), splitChars_of_forall hfield]
        rfl
  rcases List.eq_nil_or_concat' before with rfl | ⟨front, c, rfl⟩
  · exact hfirst
  · have hc : p c = true := hbefore c (by simp)
    have hlength : (front ++ [c]).countP p = (splitChars p front).length := by
      rw [length_splitChars, List.countP_append, List.countP_singleton, if_pos hc]
    rw [show front ++ [c] ++ field ++ after = front ++ c :: (field ++ after) by simp,
      splitChars_append_cons hc, hlength, List.getElem?_append_right (Nat.le_refl _), Nat.sub_self]
    exact hfirst

theorem isFieldAt_of_getElem? {cs field : List Char} {k : Nat}
    (h : (splitChars p cs)[k]? = some field) : IsFieldAt p cs k field := by
  induction cs generalizing k field with
  | nil =>
      obtain ⟨rfl, rfl⟩ : k = 0 ∧ field = [] := by
        cases k with
        | zero => exact ⟨rfl, by simpa [splitChars] using h.symm⟩
        | succ k => simp [splitChars] at h
      exact ⟨[], [], rfl, by simp, by simp, by simp, rfl⟩
  | cons c cs ih =>
      rw [splitChars] at h
      split at h
      · rename_i hc
        cases k with
        | zero =>
            obtain rfl : [] = field := by simpa using h
            exact ⟨[], c :: cs, rfl, by simp, by simp, by simpa using hc, rfl⟩
        | succ k =>
            obtain ⟨before, after, rfl, hfield, hbefore, hafter, rfl⟩ := ih (by simpa using h)
            refine ⟨c :: before, after, rfl, hfield, ?_, hafter, List.countP_cons_of_pos hc⟩
            cases before with
            | nil => simpa using hc
            | cons b before => simpa using hbefore
      · rename_i hc
        cases hsplit : splitChars p cs with
        | nil => exact (splitChars_ne_nil p cs hsplit).elim
        | cons w ws =>
            rw [hsplit] at h ih
            cases k with
            | zero =>
                obtain rfl : c :: w = field := by simpa using h
                obtain ⟨before, after, rfl, hw, hbefore, hafter, hcount⟩ :=
                  ih (show (w :: ws)[0]? = some w from rfl)
                -- a separator before the first field would count
                have hnil : before = [] := by
                  rcases List.eq_nil_or_concat' before with rfl | ⟨front, b, rfl⟩
                  · rfl
                  · have hb := List.countP_eq_zero.mp hcount b (by simp)
                    exact (hb (hbefore b (by simp))).elim
                subst hnil
                refine ⟨[], after, rfl, ?_, by simp, hafter, rfl⟩
                exact List.forall_mem_cons.mpr ⟨Bool.eq_false_iff.mpr hc, hw⟩
            | succ k =>
                obtain ⟨before, after, rfl, hfield, hbefore, hafter, hcount⟩ :=
                  ih (k := k + 1) (by simpa using h)
                refine ⟨c :: before, after, rfl, hfield, ?_, hafter, ?_⟩
                · cases before with
                  | nil => simp at hcount
                  | cons b before => simpa using hbefore
                · rw [List.countP_cons_of_neg hc, hcount]

theorem getElem?_splitChars_iff {cs field : List Char} {k : Nat} :
    (splitChars p cs)[k]? = some field ↔ IsFieldAt p cs k field :=
  ⟨isFieldAt_of_getElem?, getElem?_of_isFieldAt⟩

/-- Text without separators goes on with the last field and leaves the others. -/
theorem isFieldAt_append_iff {xs ys field : List Char} {k : Nat} (hys : ∀ c ∈ ys, p c = false) :
    IsFieldAt p (xs ++ ys) k field ↔
      (k ≠ xs.countP p ∧ IsFieldAt p xs k field) ∨
      (k = xs.countP p ∧ ∃ front, IsFieldAt p xs k front ∧ field = front ++ ys) := by
  obtain ⟨fields, last, hxs⟩ := exists_splitChars_eq_concat p xs
  have hcount : xs.countP p = fields.length := by
    have hlength := length_splitChars p xs
    rw [hxs, List.length_append, List.length_singleton] at hlength
    omega
  simp only [← getElem?_splitChars_iff, splitChars_append hxs (splitChars_of_forall hys), hxs,
    hcount]
  rcases Nat.lt_trichotomy k fields.length with hk | rfl | hk
  · simp [List.getElem?_append_left hk, hk.ne]
  · simp [eq_comm]
  · have hnone : ∀ last : List Char, (fields ++ [last])[k]? = none := by
      intro last
      rw [List.getElem?_eq_none_iff, List.length_append, List.length_singleton]
      exact hk
    simp [hnone, hk.ne']

theorem mem_splitChars_iff {cs field : List Char} :
    field ∈ splitChars p cs ↔ ∃ k, IsFieldAt p cs k field := by
  simp only [List.mem_iff_getElem?, getElem?_splitChars_iff]

end

/-! ### Words -/

theorem exists_last_blank {cs : List Char} (h : ∃ c ∈ cs, isBlank c = true) :
    ∃ front gap word, cs = front ++ gap :: word ∧ isBlank gap = true ∧
      ∀ c ∈ word, isBlank c = false := by
  obtain ⟨c, hc, hblank⟩ := h
  cases hfind : cs.reverse.find? isBlank with
  | none => exact absurd hblank (List.find?_eq_none.mp hfind c (List.mem_reverse.mpr hc))
  | some gap =>
      obtain ⟨hgap, word, front, hcs, hword⟩ := List.find?_eq_some_iff_append.mp hfind
      refine ⟨front.reverse, gap, word.reverse, ?_, hgap, fun d hd => ?_⟩
      · rw [← List.reverse_inj, hcs]
        simp
      · simpa using hword d (List.mem_reverse.mp hd)

theorem words_of_forall {word : List Char} (hne : word ≠ [])
    (h : ∀ c ∈ word, isBlank c = false) : words (String.ofList word) = [String.ofList word] := by
  rw [words, String.toList_ofList, splitChars_of_forall h,
    List.filter_cons_of_pos (by simpa using hne), List.filter_nil, List.map_singleton]

theorem words_append_gap (front : List Char) {gap : Char} (hgap : isBlank gap = true)
    (rest : List Char) :
    words (String.ofList (front ++ gap :: rest)) =
      words (String.ofList front) ++ words (String.ofList rest) := by
  simp only [words, String.toList_ofList, splitChars_append_cons hgap, List.filter_append,
    List.map_append]

theorem getLastD_words {front word : List Char} (hfront : ∀ c ∈ front.getLast?, isBlank c = true)
    (hne : word ≠ []) (h : ∀ c ∈ word, isBlank c = false) :
    (words (String.ofList (front ++ word))).getLastD "" = String.ofList word := by
  rcases List.eq_nil_or_concat' front with rfl | ⟨front, gap, rfl⟩
  · rw [List.nil_append, words_of_forall hne h]
    rfl
  · have hgap : isBlank gap = true := hfront gap (by simp)
    rw [List.append_assoc, List.singleton_append, words_append_gap front hgap,
      words_of_forall hne h, List.getLastD_concat]

/-- There is no white space in a word. -/
theorem not_blank_of_mem_words {s word : String} (h : word ∈ words s) :
    ∀ c ∈ word.toList, isBlank c = false := by
  obtain ⟨field, hfield, rfl⟩ := List.mem_map.mp h
  obtain ⟨k, _, _, _, hplain, _⟩ := mem_splitChars_iff.mp (List.mem_of_mem_filter hfield)
  rwa [String.toList_ofList]

end LintEngine.Text
