import LintEngine.Proofs.Text
import LintEngine.Versions.Order
import Mathlib.Data.List.Basic

/-!
The order of versions.

Two lists of numbers are compared as far as the longer one goes, so three
versions may be compared over three different ranges. But missing numbers count
as zero, and any length that is long enough gives the same answer. At a length
that is enough for all of them the comparison is the lexicographic one, and its
laws hold for versions too.
-/

namespace LintEngine.Versions

open Std

/-! ### Numbers -/

/-- The first `n` numbers of a list that goes on with zeros. -/
def upTo (n : Nat) (xs : List Nat) : List Nat := (List.range n).map fun i => xs.getD i 0

@[simp] theorem upTo_succ_nil (n : Nat) : upTo (n + 1) [] = 0 :: upTo n [] := by
  simp [upTo, List.range_succ_eq_map, Function.comp_def]

@[simp] theorem upTo_succ_cons (n x : Nat) (xs : List Nat) :
    upTo (n + 1) (x :: xs) = x :: upTo n xs := by
  simp [upTo, List.range_succ_eq_map]

@[simp] theorem upTo_append_zeros (n : Nat) (xs : List Nat) (k : Nat) :
    upTo n (xs ++ List.replicate k 0) = upTo n xs := by
  apply List.map_congr_left
  intro i _
  simp only [List.getD_eq_getElem?_getD, List.getElem?_append, List.getElem?_replicate]
  split
  · rfl
  · rename_i h
    rw [List.getElem?_eq_none (Nat.le_of_not_lt h)]
    split <;> rfl

/-- Numbers are compared lexicographically, at any length that is enough for
both. -/
theorem compareNumbers_eq_compareLex {xs ys : List Nat} {n : Nat} (hx : xs.length ≤ n)
    (hy : ys.length ≤ n) :
    compareNumbers xs ys = List.compareLex compare (upTo n xs) (upTo n ys) := by
  induction n generalizing xs ys with
  | zero =>
      obtain rfl := List.length_eq_zero_iff.mp (Nat.le_zero.mp hx)
      obtain rfl := List.length_eq_zero_iff.mp (Nat.le_zero.mp hy)
      simp [compareNumbers, ReflCmp.compare_self]
  | succ n ih =>
      have hnil : ([] : List Nat).length ≤ n := Nat.zero_le n
      cases xs with
      | nil =>
          cases ys with
          | nil => simp [compareNumbers, ReflCmp.compare_self]
          | cons y ys =>
              simp [compareNumbers, List.compareLex_cons_cons,
                ih hnil (Nat.le_of_succ_le_succ hy)]
      | cons x xs =>
          have hx := Nat.le_of_succ_le_succ hx
          cases ys with
          | nil => simp [compareNumbers, List.compareLex_cons_cons, ih hx hnil]
          | cons y ys =>
              simp [compareNumbers, List.compareLex_cons_cons, ih hx (Nat.le_of_succ_le_succ hy)]

instance : TransCmp compareNumbers where
  eq_swap {xs ys} := by
    let n := max xs.length ys.length
    have hx : xs.length ≤ n := Nat.le_max_left ..
    have hy : ys.length ≤ n := Nat.le_max_right ..
    rw [compareNumbers_eq_compareLex hx hy, compareNumbers_eq_compareLex hy hx]
    exact OrientedCmp.eq_swap
  isLE_trans {xs ys zs} hxy hyz := by
    -- one length for all three
    let n := max xs.length (max ys.length zs.length)
    have hx : xs.length ≤ n := by omega
    have hy : ys.length ≤ n := by omega
    have hz : zs.length ≤ n := by omega
    rw [compareNumbers_eq_compareLex hx hy] at hxy
    rw [compareNumbers_eq_compareLex hy hz] at hyz
    rw [compareNumbers_eq_compareLex hx hz]
    exact TransCmp.isLE_trans hxy hyz

/-- Zeros at the end of either list do not count. -/
theorem compareNumbers_append_zeros (xs ys : List Nat) (j k : Nat) :
    compareNumbers (xs ++ List.replicate j 0) (ys ++ List.replicate k 0) =
      compareNumbers xs ys := by
  let n := max (xs.length + j) (ys.length + k)
  have hx : (xs ++ List.replicate j 0).length ≤ n := by
    rw [List.length_append, List.length_replicate]
    omega
  have hy : (ys ++ List.replicate k 0).length ≤ n := by
    rw [List.length_append, List.length_replicate]
    omega
  calc compareNumbers (xs ++ List.replicate j 0) (ys ++ List.replicate k 0)
      = List.compareLex compare (upTo n xs) (upTo n ys) := by
        rw [compareNumbers_eq_compareLex hx hy, upTo_append_zeros, upTo_append_zeros]
    _ = compareNumbers xs ys :=
        (compareNumbers_eq_compareLex (by omega) (by omega)).symm

/-! ### Versions -/

instance : TransCmp compareQualifiers where
  eq_swap {p q} := by
    cases p <;> cases q
    case some.some p q => exact OrientedOrd.eq_swap
    all_goals rfl
  isLE_trans {p q r} hpq hqr := by
    -- no qualifier comes after all others
    cases r with
    | none => cases p <;> rfl
    | some r =>
        cases q with
        | none => cases hqr
        | some q =>
            cases p with
            | none => cases hpq
            | some p => exact TransOrd.isLE_trans hpq hqr

/-- A comparison of one part of a value keeps the laws. -/
theorem transCmp_on {α β : Type} (f : α → β) (cmp : β → β → Ordering) [TransCmp cmp] :
    TransCmp fun a b => cmp (f a) (f b) where
  eq_swap := OrientedCmp.eq_swap
  isLE_trans := TransCmp.isLE_trans

instance : TransCmp Version.compare :=
  have := transCmp_on Version.numbers compareNumbers
  have := transCmp_on Version.qualifier compareQualifiers
  inferInstanceAs (TransCmp (compareLex
    (fun a b : Version => compareNumbers a.numbers b.numbers)
    (fun a b : Version => compareQualifiers a.qualifier b.qualifier)))

instance : TransCmp compareVersions := transCmp_on Version.parse Version.compare

/-! ### Versions as written -/

theorem parse_of_not_mem {numbers : String} (h : '-' ∉ numbers.toList) :
    Version.parse numbers = ⟨(Text.split '.' numbers).map segmentNumber, none⟩ := by
  rw [Version.parse, Text.splitOnce?_of_not_mem h]

theorem parse_append {numbers : String} (h : '-' ∉ numbers.toList) (qualifier : String) :
    Version.parse (numbers ++ String.singleton '-' ++ qualifier) =
      { Version.parse numbers with qualifier := some qualifier } := by
  rw [parse_of_not_mem h, Version.parse, Text.splitOnce?_append h]

def zeroSegments (k : Nat) : List Char := (List.replicate k ['.', '0']).flatten

theorem splitChars_append_zeroSegments (front : List Char) (k : Nat) :
    Text.splitChars (· == '.') (front ++ zeroSegments k) =
      Text.splitChars (· == '.') front ++ List.replicate k ['0'] := by
  induction k generalizing front with
  | zero => simp [zeroSegments]
  | succ k ih =>
      have hzero : Text.splitChars (· == '.') ['0'] = [['0']] := by decide
      have hfront : front ++ zeroSegments (k + 1) = (front ++ ['.', '0']) ++ zeroSegments k := by
        simp [zeroSegments, List.replicate_succ]
      rw [hfront, ih, Text.splitChars_append_cons (by decide), hzero, List.replicate_succ]
      simp

theorem hyphen_not_mem_zeroSegments (k : Nat) : '-' ∉ zeroSegments k := by
  simp [zeroSegments]

/-- A version with `k` more segments `.0`, which stand before its qualifier. -/
def lengthened (k : Nat) (version : String) : String :=
  String.ofList (version.toList.takeWhile (· != '-') ++ zeroSegments k ++
    version.toList.dropWhile (· != '-'))

theorem lengthened_of_not_mem (k : Nat) {numbers : String} (h : '-' ∉ numbers.toList) :
    lengthened k numbers = String.ofList (numbers.toList ++ zeroSegments k) := by
  rw [lengthened, Text.takeWhile_of_not_mem h, Text.dropWhile_of_not_mem h, List.append_nil]

theorem lengthened_append (k : Nat) {numbers : String} (h : '-' ∉ numbers.toList)
    (qualifier : String) :
    lengthened k (numbers ++ String.singleton '-' ++ qualifier) =
      lengthened k numbers ++ String.singleton '-' ++ qualifier := by
  rw [lengthened_of_not_mem k h, lengthened, Text.toList_append_sep,
    Text.takeWhile_append_sep h, Text.dropWhile_append_sep h, ← String.toList_inj]
  simp

theorem parse_lengthened (k : Nat) (version : String) :
    Version.parse (lengthened k version) =
      { Version.parse version with
        numbers := (Version.parse version).numbers ++ List.replicate k 0 } := by
  have hnumbers : ∀ {numbers : String}, '-' ∉ numbers.toList →
      '-' ∉ (lengthened k numbers).toList ∧ Version.parse (lengthened k numbers) =
        ⟨(Text.split '.' numbers).map segmentNumber ++ List.replicate k 0, none⟩ := by
    intro numbers h
    have hlonger : '-' ∉ (lengthened k numbers).toList := by
      rw [lengthened_of_not_mem k h, String.toList_ofList, List.mem_append, not_or]
      exact ⟨h, hyphen_not_mem_zeroSegments k⟩
    have hzero : segmentNumber (String.ofList ['0']) = 0 := by decide
    refine ⟨hlonger, ?_⟩
    rw [parse_of_not_mem hlonger, lengthened_of_not_mem k h, Text.split, String.toList_ofList,
      splitChars_append_zeroSegments, Text.split]
    simp [hzero]
  by_cases h : '-' ∈ version.toList
  · obtain ⟨numbers, qualifier, rfl, hfree⟩ := Text.exists_first_of_mem h
    obtain ⟨hlonger, hparse⟩ := hnumbers hfree
    rw [lengthened_append k hfree, parse_append hlonger, hparse, parse_append hfree,
      parse_of_not_mem hfree]
  · rw [(hnumbers h).2, parse_of_not_mem h]

/-- The comparison of versions is a total preorder. It takes no notice of zeros
that are written at the end of the numbers, and puts a version without qualifier
after all versions with the same numbers and a qualifier. -/
theorem compareVersions_is_total_preorder :
    (∀ a, compareVersions a a = .eq) ∧
    (∀ a b, compareVersions b a = (compareVersions a b).swap) ∧
    (∀ a b c, compareVersions a b ≠ .gt → compareVersions b c ≠ .gt →
      compareVersions a c ≠ .gt) ∧
    (∀ j k a b, compareVersions (lengthened j a) (lengthened k b) = compareVersions a b) ∧
    (∀ a numbers qualifier, '-' ∉ a.toList → '-' ∉ numbers.toList →
      compareVersions a numbers = .eq →
      compareVersions a (numbers ++ "-" ++ qualifier) = .gt) := by
  refine ⟨fun a => ReflCmp.compare_self, fun a b => OrientedCmp.eq_swap, ?_, ?_, ?_⟩
  · intro a b c hab hbc
    rw [ne_eq, ← Ordering.isLE_iff_ne_gt] at hab hbc ⊢
    exact TransCmp.isLE_trans hab hbc
  · intro j k a b
    rw [compareVersions, compareVersions, parse_lengthened, parse_lengthened, Version.compare,
      compareNumbers_append_zeros, Version.compare]
  · intro a numbers qualifier ha hnumbers heq
    rw [compareVersions, Version.compare, Ordering.then_eq_eq] at heq
    have hparse := parse_append hnumbers qualifier
    rw [show String.singleton '-' = "-" from rfl] at hparse
    rw [compareVersions, hparse, Version.compare, heq.1, parse_of_not_mem ha]
    rfl

/-- A preview, its release and a later release. -/
theorem compareVersions_release_line :
    compareVersions "17-rc2" "17.0" ≠ .gt ∧ compareVersions "17.0" "17.0.1" ≠ .gt ∧
    compareVersions "17-rc2" "17.0.1" ≠ .gt ∧
    compareVersions "17.0" "17" = .eq ∧ compareVersions "17.0" "17-rc2" = .gt := by
  have hpreview : Version.parse "17-rc2" = ⟨[17], some "rc2"⟩ := by decide
  have hshort : Version.parse "17" = ⟨[17], none⟩ := by decide
  have hrelease : Version.parse "17.0" = ⟨[17, 0], none⟩ := by decide
  have hlater : Version.parse "17.0.1" = ⟨[17, 0, 1], none⟩ := by decide
  have hfirst : compareVersions "17-rc2" "17.0" ≠ .gt := by
    simp [compareVersions, hpreview, hrelease, Version.compare, compareNumbers, compareQualifiers]
  have hsecond : compareVersions "17.0" "17.0.1" ≠ .gt := by
    simp [compareVersions, hrelease, hlater, Version.compare, compareNumbers,
      show compare 0 1 = Ordering.lt from rfl]
  have hsame : compareVersions "17.0" "17" = .eq := by
    simp [compareVersions, hrelease, hshort, Version.compare, compareNumbers, compareQualifiers]
  obtain ⟨-, -, htrans, -, hlast⟩ := compareVersions_is_total_preorder
  exact ⟨hfirst, hsecond, htrans _ _ _ hfirst hsecond, hsame,
    hlast "17.0" "17" "rc2" (by decide) (by decide) hsame⟩

end LintEngine.Versions
