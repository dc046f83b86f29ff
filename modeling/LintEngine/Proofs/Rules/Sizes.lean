import LintEngine.Proofs.Text
import LintEngine.Proofs.Text.Digits
import LintEngine.Rules.Range
import Mathlib.Tactic.NormNum

/-!
What is wrong with a size. A `SizeFault` is the first constraint that a size violates, with
the numbers that the message about it names, and the message tells the fault.

The computation is stated over an arithmetic. With arithmetic that wraps it gives the
messages; with arithmetic that fails on overflow and on division by zero it gives the same,
as long as sizes are below half of the range.
-/

namespace LintEngine

/-! ### Arithmetic that can fail -/

namespace Word

def fit? (n : Int) : Option Int64 := (signed? 63 n).map Int64.ofInt

def add? (a b : Int64) : Option Int64 := fit? (a.toInt + b.toInt)

def mul? (a b : Int64) : Option Int64 := fit? (a.toInt * b.toInt)

/-- There is no quotient by 0, and none of the least number by -1. -/
def div? (a b : Int64) : Option Int64 := if b = 0 then none else fit? (a.toInt.tdiv b.toInt)

def rem? (a b : Int64) : Option Int64 := (div? a b).map fun _ => a % b

variable {a b : Int64}

theorem fit?_toInt (a : Int64) : fit? a.toInt = some a := by
  have hmin : -(size 63 : Int) ≤ a.toInt := a.le_toInt
  have hmax : a.toInt < (size 63 : Int) := a.toInt_lt
  simp [fit?, signed?, hmin, hmax]

theorem add?_eq_some (h : (a + b).toInt = a.toInt + b.toInt) : add? a b = some (a + b) := by
  rw [add?, ← h, fit?_toInt]

theorem mul?_eq_some (h : (a * b).toInt = a.toInt * b.toInt) : mul? a b = some (a * b) := by
  rw [mul?, ← h, fit?_toInt]

theorem div?_eq_some (hb : b ≠ 0) (h : (a / b).toInt = a.toInt.tdiv b.toInt) :
    div? a b = some (a / b) := by
  rw [div?, if_neg hb, ← h, fit?_toInt]

theorem rem?_eq_some (h : div? a b = some (a / b)) : rem? a b = some (a % b) := by
  rw [rem?, h, Option.map_some]

end Word

namespace Rules

/-! ### Faults -/

/-- The constraint that a size violates, with what is asked for. Of a multiple also the
neighbours of the size that would do. -/
inductive SizeFault where
  | exact (asked : Int64)
  | least (asked : Int64)
  | greatest (asked : Int64)
  | multiple (asked lower upper : Int64)

namespace SizeFault

/-- The words of the message about a size, after what it is a size of. -/
def fields (actual : Int64) : SizeFault → List String
  | exact asked => [showInt asked, "(was", showInt actual ++ ")"]
  | least asked => ["≥", showInt asked, "(was", showInt actual ++ ")"]
  | greatest asked => ["≤", showInt asked, "(was", showInt actual ++ ")"]
  | multiple asked lower upper =>
    ["to", "be", "a", "multiple", "of", showInt asked, "(was", showInt actual, "and", "should",
      "be", "either", showInt lower, "or", showInt upper ++ ")"]

def text (unit : String) (actual : Int64) (f : SizeFault) : String :=
  "Expected " ++ unit ++ " " ++ Text.join " " (f.fields actual)

/-- That this is the first constraint a size violates, and these are its numbers. -/
def Holds (actual exact min max multiple : Int64) : SizeFault → Prop
  | .exact asked => asked = exact ∧ exact ≠ -1 ∧ actual ≠ exact
  | .least asked => asked = min ∧ (exact = -1 ∨ actual = exact) ∧ actual < min
  | .greatest asked => asked = max ∧ (exact = -1 ∨ actual = exact) ∧ min ≤ actual ∧ max < actual
  | .multiple asked lower upper =>
    asked = multiple ∧ (exact = -1 ∨ actual = exact) ∧ min ≤ actual ∧ actual ≤ max ∧
      1 < multiple ∧ multiple.toInt ∣ lower.toInt ∧ upper.toInt = lower.toInt + multiple.toInt ∧
      lower < actual ∧ actual < upper

theorem showInt_inj {a b : Int64} : showInt a = showInt b ↔ a = b := by
  refine ⟨fun h => ?_, congrArg _⟩
  have hread := congrArg Text.integer? h
  rw [showInt, showInt, Text.integer?_toString, Text.integer?_toString] at hread
  exact Int64.toInt_inj.mp (Option.some.inj hread)

theorem space_not_mem_showInt (a : Int64) : ' ' ∉ (showInt a).toList :=
  Text.space_not_mem_toString a.toInt

theorem fields_injective {actual : Int64} {f g : SizeFault}
    (h : f.fields actual = g.fields actual) : f = g := by
  cases f <;> cases g <;> simp_all [fields, showInt_inj]

theorem split_fields (actual : Int64) (f : SizeFault) :
    Text.split ' ' (Text.join " " (f.fields actual)) = f.fields actual := by
  apply Text.split_join
  · cases f <;> exact List.cons_ne_nil _ _
  · have hspace := space_not_mem_showInt
    cases f <;> simp [fields, hspace]

theorem was_eq : " (was " = " " ++ "(was" ++ " " := by simp

section

variable (unit : String) (actual asked lower upper : Int64)

theorem text_exact : (exact asked).text unit actual =
    "Expected " ++ unit ++ " " ++ showInt asked ++ " (was " ++ showInt actual ++ ")" := by
  simp only [text, fields, Text.join, String.intercalate_cons_cons, String.intercalate_singleton,
    String.append_assoc, was_eq]

theorem text_least : (least asked).text unit actual =
    "Expected " ++ unit ++ " " ++ ("≥ " ++ showInt asked) ++ " (was " ++ showInt actual ++ ")" := by
  have hleast : "≥ " = "≥" ++ " " := by simp
  simp only [text, fields, Text.join, String.intercalate_cons_cons, String.intercalate_singleton,
    String.append_assoc, hleast, was_eq]

theorem text_greatest : (greatest asked).text unit actual =
    "Expected " ++ unit ++ " " ++ ("≤ " ++ showInt asked) ++ " (was " ++ showInt actual ++ ")" := by
  have hgreatest : "≤ " = "≤" ++ " " := by simp
  simp only [text, fields, Text.join, String.intercalate_cons_cons, String.intercalate_singleton,
    String.append_assoc, hgreatest, was_eq]

theorem text_multiple : (multiple asked lower upper).text unit actual =
    "Expected " ++ unit ++ " to be a multiple of " ++ showInt asked ++ " (was " ++
      showInt actual ++ " and should be either " ++ showInt lower ++ " or " ++
      showInt upper ++ ")" := by
  have hmultiple : " to be a multiple of " =
      " " ++ "to" ++ " " ++ "be" ++ " " ++ "a" ++ " " ++ "multiple" ++ " " ++ "of" ++ " " := by simp
  have heither : " and should be either " =
      " " ++ "and" ++ " " ++ "should" ++ " " ++ "be" ++ " " ++ "either" ++ " " := by simp
  have hor : " or " = " " ++ "or" ++ " " := by simp
  simp only [text, fields, Text.join, String.intercalate_cons_cons, String.intercalate_singleton,
    String.append_assoc, hmultiple, was_eq, heither, hor]

end

/-- The message tells the constraint and the numbers. -/
theorem text_inj {unit : String} {actual : Int64} {f g : SizeFault} :
    f.text unit actual = g.text unit actual ↔ f = g := by
  refine ⟨fun h => ?_, congrArg _⟩
  have hjoin : Text.join " " (f.fields actual) = Text.join " " (g.fields actual) :=
    (String.append_right_inj _).mp h
  have hfields := congrArg (Text.split ' ') hjoin
  rw [split_fields, split_fields] at hfields
  exact fields_injective hfields

end SizeFault

/-! ### The computation -/

structure Arithmetic (m : Type → Type) where
  add : Int64 → Int64 → m Int64
  mul : Int64 → Int64 → m Int64
  div : Int64 → Int64 → m Int64
  rem : Int64 → Int64 → m Int64

namespace Arithmetic

def wrapping : Arithmetic Id := ⟨(· + ·), (· * ·), (· / ·), (· % ·)⟩

def checked : Arithmetic Option := ⟨Word.add?, Word.mul?, Word.div?, Word.rem?⟩

end Arithmetic

def sizeFault {m : Type → Type} [Monad m] (arith : Arithmetic m)
    (actual exact min max multiple : Int64) : m (Option SizeFault) :=
  if exact != -1 && actual != exact then pure (some (.exact exact))
  else if actual < min then pure (some (.least min))
  else if actual > max then pure (some (.greatest max))
  else if multiple > 1 then do
    if (← arith.rem actual multiple) = 0 then
      return none
    let quotient ← arith.div actual multiple
    let lower ← arith.mul quotient multiple
    let upper ← arith.add lower multiple
    return some (.multiple multiple lower upper)
  else pure none

section

variable (actual exact min max multiple : Int64)

theorem sizeFault_wrapping : (sizeFault .wrapping actual exact min max multiple).run =
    if exact ≠ -1 ∧ actual ≠ exact then some (.exact exact)
    else if actual < min then some (.least min)
    else if max < actual then some (.greatest max)
    else if 1 < multiple then
      if actual % multiple = 0 then none
      else some (.multiple multiple (actual / multiple * multiple)
        (actual / multiple * multiple + multiple))
    else none := by
  simp only [sizeFault, Bool.and_eq_true, bne_iff_ne, gt_iff_lt, apply_ite Id.run]
  rfl

theorem sizeError_eq (unit : String) :
    sizeError actual exact min max multiple unit =
      (sizeFault .wrapping actual exact min max multiple).run.map (SizeFault.text unit actual) := by
  rw [sizeFault_wrapping]
  simp only [sizeError, Bool.and_eq_true, bne_iff_ne, decide_eq_true_eq, apply_ite (Option.map _),
    Option.map_some, Option.map_none, SizeFault.text_exact, SizeFault.text_least,
    SizeFault.text_greatest, SizeFault.text_multiple, ite_and, ite_not]

end

/-! ### Neighbouring multiples -/

section

variable {actual exact min max multiple : Int64}

theorem rem_eq_zero_iff : actual % multiple = 0 ↔ multiple.toInt ∣ actual.toInt := by
  rw [← Int64.toInt_inj, Int64.toInt_mod, Int64.toInt_zero, Int.dvd_iff_tmod_eq_zero]

theorem bmod_eq_self {n : Int} (hmin : -2 ^ 63 ≤ n) (hmax : n < 2 ^ 63) : n.bmod (2 ^ 64) = n :=
  Int.bmod_eq_of_le (by norm_num; omega) (by omega)

theorem toInt_div (hmultiple : 1 < multiple) :
    (actual / multiple).toInt = actual.toInt.tdiv multiple.toInt := by
  apply Int64.toInt_div_of_ne_right
  rintro rfl
  exact absurd hmultiple (by decide)

theorem toInt_lower (hnonneg : 0 ≤ actual.toInt) (hmultiple : 1 < multiple) :
    (actual / multiple * multiple).toInt = actual.toInt / multiple.toInt * multiple.toInt := by
  have hpos : 1 < multiple.toInt := Int64.lt_iff_toInt_lt.mp hmultiple
  have hquotient : 0 ≤ actual.toInt / multiple.toInt := Int.ediv_nonneg hnonneg (by omega)
  have hlower : 0 ≤ actual.toInt / multiple.toInt * multiple.toInt :=
    Int.mul_nonneg hquotient (by omega)
  have hle : actual.toInt / multiple.toInt * multiple.toInt ≤ actual.toInt :=
    Int.ediv_mul_le _ (by omega)
  have hlt := actual.toInt_lt
  rw [Int64.toInt_mul, toInt_div hmultiple, Int.tdiv_eq_ediv_of_nonneg hnonneg]
  exact bmod_eq_self (by omega) (by omega)

/-- A multiple that is at most a size below half of the range is so, too; the others have 0
as the lower neighbour. -/
theorem toInt_upper (hnonneg : 0 ≤ actual.toInt) (hsmall : actual.toInt < 2 ^ 62)
    (hmultiple : 1 < multiple) :
    (actual / multiple * multiple + multiple).toInt =
      (actual / multiple * multiple).toInt + multiple.toInt := by
  have hpos : 1 < multiple.toInt := Int64.lt_iff_toInt_lt.mp hmultiple
  have hsum : 0 ≤ actual.toInt / multiple.toInt * multiple.toInt + multiple.toInt ∧
      actual.toInt / multiple.toInt * multiple.toInt + multiple.toInt < 2 ^ 63 := by
    rcases Int.lt_or_le actual.toInt multiple.toInt with hlt | hle
    · rw [Int.ediv_eq_zero_of_lt hnonneg hlt]
      have := multiple.toInt_lt
      omega
    · have hlower : actual.toInt / multiple.toInt * multiple.toInt ≤ actual.toInt :=
        Int.ediv_mul_le _ (by omega)
      have hquotient : 0 ≤ actual.toInt / multiple.toInt * multiple.toInt :=
        Int.mul_nonneg (Int.ediv_nonneg hnonneg (by omega)) (by omega)
      omega
  rw [Int64.toInt_add, toInt_lower hnonneg hmultiple]
  exact bmod_eq_self (by omega) hsum.2

/-- The multiples beside a size that is none itself. -/
theorem isBeside_iff {lower upper : Int64} (hnonneg : 0 ≤ actual.toInt)
    (hsmall : actual.toInt < 2 ^ 62) (hmultiple : 1 < multiple) :
    actual % multiple ≠ 0 ∧ lower = actual / multiple * multiple ∧
        upper = actual / multiple * multiple + multiple ↔
      multiple.toInt ∣ lower.toInt ∧ upper.toInt = lower.toInt + multiple.toInt ∧
        lower < actual ∧ actual < upper := by
  have hpos : 1 < multiple.toInt := Int64.lt_iff_toInt_lt.mp hmultiple
  have hlower := toInt_lower hnonneg hmultiple
  have hupper := toInt_upper hnonneg hsmall hmultiple
  rw [Ne, rem_eq_zero_iff, Int64.lt_iff_toInt_lt, Int64.lt_iff_toInt_lt]
  constructor
  · rintro ⟨hrem, rfl, rfl⟩
    have hdvd : multiple.toInt ∣ (actual / multiple * multiple).toInt :=
      hlower ▸ Int.dvd_mul_left ..
    have hle : actual.toInt / multiple.toInt * multiple.toInt ≤ actual.toInt :=
      Int.ediv_mul_le _ (by omega)
    have hlt : actual.toInt < (actual.toInt / multiple.toInt + 1) * multiple.toInt :=
      Int.lt_ediv_add_one_mul_self _ (by omega)
    have hne : (actual / multiple * multiple).toInt ≠ actual.toInt := by
      intro heq
      exact hrem (heq ▸ hdvd)
    rw [Int.add_mul, Int.one_mul] at hlt
    exact ⟨hdvd, hupper, by omega, by omega⟩
  · rintro ⟨⟨k, hk⟩, hnext, hbelow, habove⟩
    have hquotient : actual.toInt / multiple.toInt = k := by
      rw [Int.ediv_eq_iff_of_pos (by omega), Int.mul_comm k]
      omega
    have heq : lower = actual / multiple * multiple := by
      rw [← Int64.toInt_inj, hlower, hquotient, hk, Int.mul_comm]
    refine ⟨?_, heq, ?_⟩
    · rintro hdvd
      have := Int.ediv_mul_cancel hdvd
      rw [hquotient, Int.mul_comm, ← hk] at this
      omega
    · rw [← Int64.toInt_inj, hnext, hupper, heq]

/-! ### Faults and messages -/

theorem checked_operations (hnonneg : 0 ≤ actual.toInt) (hsmall : actual.toInt < 2 ^ 62)
    (hmultiple : 1 < multiple) :
    Word.rem? actual multiple = some (actual % multiple) ∧
    Word.div? actual multiple = some (actual / multiple) ∧
    Word.mul? (actual / multiple) multiple = some (actual / multiple * multiple) ∧
    Word.add? (actual / multiple * multiple) multiple =
      some (actual / multiple * multiple + multiple) := by
  have hne : multiple ≠ 0 := by
    rintro rfl
    exact absurd hmultiple (by decide)
  have hdiv : Word.div? actual multiple = some (actual / multiple) :=
    Word.div?_eq_some hne (toInt_div hmultiple)
  refine ⟨Word.rem?_eq_some hdiv, hdiv, Word.mul?_eq_some ?_,
    Word.add?_eq_some (toInt_upper hnonneg hsmall hmultiple)⟩
  rw [toInt_lower hnonneg hmultiple, toInt_div hmultiple, Int.tdiv_eq_ediv_of_nonneg hnonneg]

theorem sizeFault_checked (hnonneg : 0 ≤ actual.toInt) (hsmall : actual.toInt < 2 ^ 62) :
    sizeFault .checked actual exact min max multiple =
      some (sizeFault .wrapping actual exact min max multiple).run := by
  rw [sizeFault_wrapping]
  simp only [sizeFault, Bool.and_eq_true, bne_iff_ne, gt_iff_lt]
  split_ifs with hexact hmin hmax hmultiple hdivides
  · rfl
  · rfl
  · rfl
  · obtain ⟨hrem, -⟩ := checked_operations hnonneg hsmall hmultiple
    simp [Arithmetic.checked, hrem, hdivides]
  · obtain ⟨hrem, hdiv, hmul, hadd⟩ := checked_operations hnonneg hsmall hmultiple
    simp [Arithmetic.checked, hrem, hdiv, hmul, hadd, hdivides]
  · rfl

theorem sizeFault_eq_none_iff :
    (sizeFault .wrapping actual exact min max multiple).run = none ↔
      (exact = -1 ∨ actual = exact) ∧ min ≤ actual ∧ actual ≤ max ∧
        (multiple ≤ 1 ∨ multiple.toInt ∣ actual.toInt) := by
  rw [sizeFault_wrapping, ← rem_eq_zero_iff, ← Int64.not_lt, ← Int64.not_lt, ← Int64.not_lt]
  split_ifs with hexact hmin hmax hmultiple hrem <;> simp_all [or_iff_not_imp_left]

theorem sizeFault_eq_some_iff (hnonneg : 0 ≤ actual.toInt) (hsmall : actual.toInt < 2 ^ 62)
    (f : SizeFault) :
    (sizeFault .wrapping actual exact min max multiple).run = some f ↔
      f.Holds actual exact min max multiple := by
  have hmeets : ¬ (exact ≠ -1 ∧ actual ≠ exact) ↔ exact = -1 ∨ actual = exact := by
    rw [not_and_or, not_not, not_not]
  rw [sizeFault_wrapping]
  constructor
  · intro h
    split_ifs at h with hexact hmin hmax hmultiple hrem
    · obtain rfl := Option.some.inj h
      exact ⟨rfl, hexact⟩
    · obtain rfl := Option.some.inj h
      exact ⟨rfl, hmeets.mp hexact, hmin⟩
    · obtain rfl := Option.some.inj h
      exact ⟨rfl, hmeets.mp hexact, Int64.not_lt.mp hmin, hmax⟩
    · obtain rfl := Option.some.inj h
      exact ⟨rfl, hmeets.mp hexact, Int64.not_lt.mp hmin, Int64.not_lt.mp hmax, hmultiple,
        (isBeside_iff hnonneg hsmall hmultiple).mp ⟨hrem, rfl, rfl⟩⟩
  · intro h
    cases f with
    | exact asked =>
        obtain ⟨rfl, hexact⟩ := h
        rw [if_pos hexact]
    | least asked =>
        obtain ⟨rfl, hexact, hmin⟩ := h
        rw [if_neg (hmeets.mpr hexact), if_pos hmin]
    | greatest asked =>
        obtain ⟨rfl, hexact, hmin, hmax⟩ := h
        rw [if_neg (hmeets.mpr hexact), if_neg (Int64.not_lt.mpr hmin), if_pos hmax]
    | multiple asked lower upper =>
        obtain ⟨rfl, hexact, hmin, hmax, hmultiple, hbeside⟩ := h
        obtain ⟨hrem, rfl, rfl⟩ := (isBeside_iff hnonneg hsmall hmultiple).mpr hbeside
        rw [if_neg (hmeets.mpr hexact), if_neg (Int64.not_lt.mpr hmin),
          if_neg (Int64.not_lt.mpr hmax), if_pos hmultiple, if_neg hrem]

end

/-- Sizes below half of the range are checked without overflow and division by zero. Nothing
is wrong just if a size meets all constraints that are set; otherwise the message tells the
first that it violates. Where that is the multiple, the two sizes in the message are multiples
that follow each other, with the size between them. -/
theorem sizeError_tells_first_violation {actual : Int64} (exact min max multiple : Int64)
    (unit : String) (hnonneg : 0 ≤ actual.toInt) (hsmall : actual.toInt < 2 ^ 62) :
    (sizeFault .checked actual exact min max multiple).map
        (Option.map (SizeFault.text unit actual)) =
      some (sizeError actual exact min max multiple unit) ∧
    (sizeError actual exact min max multiple unit = none ↔
      (exact = -1 ∨ actual = exact) ∧ min ≤ actual ∧ actual ≤ max ∧
        (multiple ≤ 1 ∨ multiple.toInt ∣ actual.toInt)) ∧
    ∀ f : SizeFault, sizeError actual exact min max multiple unit = some (f.text unit actual) ↔
      f.Holds actual exact min max multiple := by
  refine ⟨?_, ?_, fun f => ?_⟩
  · rw [sizeFault_checked hnonneg hsmall, Option.map_some, sizeError_eq]
  · rw [sizeError_eq, Option.map_eq_none_iff, sizeFault_eq_none_iff]
  · rw [sizeError_eq, Option.map_eq_some_iff, ← sizeFault_eq_some_iff hnonneg hsmall]
    simp [SizeFault.text_inj]

/-- The largest such size, beside a multiple whose double has to be a word. -/
theorem sizeError_largest_size :
    (0 ≤ (4611686018427387903 : Int64).toInt ∧ (4611686018427387903 : Int64).toInt < 2 ^ 62) ∧
    sizeError 4611686018427387903 (-1) leastInt greatestInt 4611686018427387902 "size" =
      some ((SizeFault.multiple 4611686018427387902 4611686018427387902 9223372036854775804).text
        "size" 4611686018427387903) :=
  ⟨by decide, ((sizeError_tells_first_violation (-1) leastInt greatestInt 4611686018427387902
    "size" (by decide) (by decide)).2.2 _).mpr ⟨rfl, by decide⟩⟩

example : sizeError 7 (-1) leastInt greatestInt 3 "size" =
    some "Expected size to be a multiple of 3 (was 7 and should be either 6 or 9)" := by
  cbv

end Rules

end LintEngine
