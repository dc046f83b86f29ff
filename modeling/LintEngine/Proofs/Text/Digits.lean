import LintEngine.Text.Digits
import Mathlib.Data.List.Induction
import Mathlib.Data.Nat.Digits.Defs

/-!
Numbers in positional notation. A `Digit` is a character that stands for a number below
the base, a letter in either case, and `numberOf` is the number that digits stand for.
Reading digits gives this number, and every number is written with some digits.
-/

namespace LintEngine.Text

structure Digit (base : Nat) where
  char : Char
  value : Nat
  value_lt : value < base
  spells : char = Nat.digitChar value ∨ char = (Nat.digitChar value).toUpper

/-- The number that digits stand for, the most significant digit first. -/
def numberOf {base : Nat} (ds : List (Digit base)) : Nat :=
  Nat.ofDigits base (ds.map (·.value)).reverse

variable {base : Nat}

theorem numberOf_concat (ds : List (Digit base)) (d : Digit base) :
    numberOf (ds ++ [d]) = base * numberOf ds + d.value := by
  rw [numberOf, List.map_append, List.map_singleton, List.reverse_append, List.reverse_singleton,
    List.singleton_append, Nat.ofDigits_cons, Nat.add_comm]
  rfl

/-! ### Single digits -/

namespace Digit

/-- There are digits in bases up to sixteen only. -/
theorem forall_of_le (hbase : base ≤ 16) {p : Char → Nat → Prop}
    (h : ∀ v ∈ List.range 16, p (Nat.digitChar v) v ∧ p (Nat.digitChar v).toUpper v)
    (d : Digit base) : p d.char d.value := by
  obtain ⟨hlower, hupper⟩ :=
    h d.value (List.mem_range.mpr (Nat.lt_of_lt_of_le d.value_lt hbase))
  rcases d.spells with hd | hd
  · rwa [hd]
  · rwa [hd]

theorem toLower_char (hbase : base ≤ 16) (d : Digit base) :
    d.char.toLower = Nat.digitChar d.value :=
  forall_of_le (p := fun c v => c.toLower = Nat.digitChar v) hbase (by decide) d

theorem char_ne (hbase : base ≤ 16) (d : Digit base) {c : Char}
    (hc : c ∈ ['_', 'l', 'L', 'x', 'u', '\\', '+', '-']) : d.char ≠ c := by
  have h : (['_', 'l', 'L', 'x', 'u', '\\', '+', '-'].all fun c => (List.range 16).all fun v =>
      Nat.digitChar v != c && (Nat.digitChar v).toUpper != c) = true := by decide
  simp only [List.all_eq_true, Bool.and_eq_true, bne_iff_ne] at h
  exact forall_of_le (p := fun x _ => x ≠ c) hbase (h c hc) d

theorem digit?_char (hbase : base ≤ 16) (d : Digit base) : digit? base d.char = some d.value := by
  have hvalue : digit? 16 d.char = some d.value :=
    forall_of_le (p := fun c v => digit? 16 c = some v) hbase (by decide) d
  have hlt := d.value_lt
  -- the base matters only for characters that are no digits
  simp only [digit?] at hvalue ⊢
  split_ifs at hvalue ⊢ <;> simp_all <;> omega

def lower (d : Digit base) : Digit base where
  char := Nat.digitChar d.value
  value := d.value
  value_lt := d.value_lt
  spells := .inl rfl

end Digit

theorem numberOf_map_lower (ds : List (Digit base)) :
    numberOf (ds.map Digit.lower) = numberOf ds := by
  rw [numberOf, List.map_map]
  rfl

/-! ### Reading and writing -/

theorem number?_digits (hbase : base ≤ 16) {ds : List (Digit base)} (hne : ds ≠ []) :
    number? base (ds.map (·.char)) = some (numberOf ds) := by
  have hfold : ∀ ds : List (Digit base),
      (ds.map (·.char)).foldlM (fun n c => (digit? base c).map (base * n + ·)) 0 =
        some (numberOf ds) := by
    intro ds
    induction ds using List.reverseRecOn with
    | nil => rfl
    | append_singleton ds d ih =>
        rw [List.map_append, List.foldlM_append, ih, numberOf_concat]
        simp [Digit.digit?_char hbase d]
  rw [number?, if_neg, hfold]
  simpa using hne

/-- No digit is a sign. -/
theorem unsigned?_digits (hbase : base ≤ 16) {ds : List (Digit base)} (hne : ds ≠ []) :
    unsigned? base (ds.map (·.char)) = some (numberOf ds) := by
  rw [← number?_digits hbase hne]
  cases ds with
  | nil => exact absurd rfl hne
  | cons d ds =>
      rw [List.map_cons, unsigned?]
      exact fun _ h => d.char_ne hbase (by decide) (List.cons.inj h).1

/-- A number is written with digits. The first of them is zero only if the number is. -/
theorem exists_digits (hbase : 1 < base) (n : Nat) :
    ∃ ds : List (Digit base), ds ≠ [] ∧ ds.map (·.char) = Nat.toDigits base n ∧ numberOf ds = n ∧
      ∀ d ∈ ds.head?, d.value = 0 → ds.length = 1 := by
  induction n using Nat.strongRecOn with
  | _ n ih =>
      rw [Nat.toDigits_eq_if hbase]
      by_cases hn : n < base
      · refine ⟨[⟨Nat.digitChar n, n, hn, .inl rfl⟩], List.cons_ne_nil _ _, ?_, ?_, ?_⟩
        · rw [if_pos hn, List.map_singleton]
        · simp [numberOf]
        · exact fun _ _ _ => rfl
      · obtain ⟨ds, hne, hchars, hnumber, hhead⟩ := ih (n / base) (Nat.div_lt_self (by omega) hbase)
        let last : Digit base := ⟨_, n % base, Nat.mod_lt _ (by omega), .inl rfl⟩
        refine ⟨ds ++ [last], by simp, ?_, ?_, fun d hd hzero => ?_⟩
        · rw [if_neg hn, List.map_append, hchars, List.map_singleton]
        · rw [numberOf_concat, hnumber]
          exact Nat.div_add_mod n base
        · -- the leading digits stand for a positive number
          have hd : d ∈ ds.head? := by
            cases ds with
            | nil => exact absurd rfl hne
            | cons => exact hd
          obtain ⟨d', rfl⟩ := List.length_eq_one_iff.mp (hhead d hd hzero)
          cases hd
          have hpos : 0 < n / base := Nat.div_pos (Nat.le_of_not_lt hn) (by omega)
          simp [numberOf, hzero] at hnumber
          omega

theorem number?_repr (n : Nat) : number? 10 n.repr.toList = some n := by
  obtain ⟨ds, hne, hchars, hnumber, -⟩ := exists_digits (by decide : 1 < 10) n
  rw [Nat.toList_repr, ← hchars, number?_digits (by decide) hne, hnumber]

theorem integer?_toString (a : Int64) : integer? (toString a.toInt) = some a.toInt := by
  have hmin : -(Word.size 63 : Int) ≤ a.toInt := a.le_toInt
  have hmax : a.toInt < (Word.size 63 : Int) := a.toInt_lt
  have hsigned : Word.signed? 63 a.toInt = some a.toInt := by simp [Word.signed?, hmin, hmax]
  rw [Int.toString_eq_repr, Int.repr_eq_if, integer?]
  split_ifs with hnonneg
  · obtain ⟨ds, hne, hchars, hnumber, -⟩ := exists_digits (by decide : 1 < 10) a.toInt.toNat
    rw [Nat.toList_repr, ← hchars]
    split
    · rename_i ds' hminus
      obtain ⟨d, ds, rfl⟩ := List.exists_cons_of_ne_nil hne
      exact absurd (List.cons.inj hminus).1 (d.char_ne (by decide) (by decide))
    · rw [unsigned?_digits (by decide) hne, hnumber, Option.map_some, Option.bind_some,
        Int.ofNat_eq_natCast, Int.toNat_of_nonneg hnonneg, hsigned]
  · have hopposite : -((-a.toInt).toNat : Int) = a.toInt := by omega
    rw [String.toList_append, show "-".toList = ['-'] from rfl, List.singleton_append]
    simp only
    rw [number?_repr, Option.map_some, Option.bind_some, hopposite, hsigned]

theorem space_not_mem_toString (n : Int) : ' ' ∉ (toString n).toList := by
  have hdigits : ∀ k : Nat, ' ' ∉ k.repr.toList := by
    intro k hmem
    rw [Nat.toList_repr] at hmem
    have := Nat.isDigit_of_mem_toDigits (by decide) (by decide) hmem
    exact absurd this (by decide)
  rw [Int.toString_eq_repr, Int.repr_eq_if]
  split
  · exact hdigits _
  · rw [String.toList_append, List.mem_append]
    rintro (hmem | hmem)
    · exact absurd hmem (by decide)
    · exact hdigits _ hmem

end LintEngine.Text
