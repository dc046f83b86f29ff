import LintEngine.Literal
import Mathlib.Data.Option.Basic

/-!
When two compile-time values are equal.

A floating-point value that is not a number equals nothing, not even itself, and
the two zeros are equal. Apart from that, values are equal just if they are the
same.
-/

namespace LintEngine

open Float.Model

/-- The number that an unpacked value stands for. The two zeros are one number. -/
def numberOf? : UnpackedFloat → Option UnpackedFloat
  | .notANumber => none
  | .zero _ => some (.zero .positive)
  | u => some u

/-- Finite numbers other than zero are the same just if all their parts are. -/
theorem numberOf?_finite_iff {s s' : UnpackedFloat.Sign} {m m' : Nat} {e e' : Int} {hm : 0 < m}
    {hm' : 0 < m'} :
    (∃ u, numberOf? (.finite s m e hm) = some u ∧ numberOf? (.finite s' m' e' hm') = some u) ↔
      s' = s ∧ m' = m ∧ e' = e := by
  constructor
  · rintro ⟨u, ⟨⟩, ⟨⟩⟩
    exact ⟨rfl, rfl, rfl⟩
  · rintro ⟨rfl, rfl, rfl⟩
    exact ⟨_, rfl, rfl⟩

theorem unpacked_beq_iff {a b : UnpackedFloat} :
    a.beq b = true ↔ ∃ u, numberOf? a = some u ∧ numberOf? b = some u := by
  change (a.compare b == some .eq) = true ↔ _
  rw [beq_iff_eq]
  cases a with
  | notANumber => exact iff_of_false (by rintro ⟨⟩) (by rintro ⟨u, ⟨⟩, -⟩)
  | infinity s =>
      cases b with
      | infinity s' =>
          cases s with
          | positive =>
              cases s' with
              | positive => exact iff_of_true rfl ⟨_, rfl, rfl⟩
              | negative => exact iff_of_false (by rintro ⟨⟩) (by rintro ⟨u, ⟨⟩, ⟨⟩⟩)
          | negative =>
              cases s' with
              | positive => exact iff_of_false (by rintro ⟨⟩) (by rintro ⟨u, ⟨⟩, ⟨⟩⟩)
              | negative => exact iff_of_true rfl ⟨_, rfl, rfl⟩
      | _ => exact iff_of_false (by cases s <;> rintro ⟨⟩) (by rintro ⟨u, ⟨⟩, ⟨⟩⟩)
  | zero s =>
      cases b with
      | infinity s' | finite s' =>
          exact iff_of_false (by cases s' <;> rintro ⟨⟩) (by rintro ⟨u, ⟨⟩, ⟨⟩⟩)
      | notANumber => exact iff_of_false (by rintro ⟨⟩) (by rintro ⟨u, ⟨⟩, ⟨⟩⟩)
      | zero s' => exact iff_of_true rfl ⟨_, rfl, rfl⟩
  | finite s m e hm =>
      cases b with
      | infinity s' => exact iff_of_false (by cases s' <;> rintro ⟨⟩) (by rintro ⟨u, ⟨⟩, ⟨⟩⟩)
      | notANumber | zero s' =>
          exact iff_of_false (by cases s <;> rintro ⟨⟩) (by rintro ⟨u, ⟨⟩, ⟨⟩⟩)
      | finite s' m' e' hm' =>
          have hsame : (compare e e').then (compare m m') = .eq ↔ m' = m ∧ e' = e := by
            rw [Ordering.then_eq_eq, Std.compare_eq_iff_eq, Std.compare_eq_iff_eq, and_comm,
              eq_comm, eq_comm (a := e)]
          rw [numberOf?_finite_iff, ← hsame]
          cases s with
          | positive =>
              cases s' with
              | positive =>
                  change some ((compare e e').then (compare m m')) = some .eq ↔ _
                  simp
              | negative => exact iff_of_false (by rintro ⟨⟩) (by rintro ⟨⟨⟩, -⟩)
          | negative =>
              cases s' with
              | positive => exact iff_of_false (by rintro ⟨⟩) (by rintro ⟨⟨⟩, -⟩)
              | negative =>
                  change some ((compare e e').then (compare m m')).swap = some .eq ↔ _
                  simp [Ordering.swap_eq_eq]

namespace Literal

def meaning? : Literal → Option (Literal ⊕ UnpackedFloat)
  | float x => (numberOf? x.toModel.unpack).map .inr
  | l => some (.inl l)

/-- Values are equal just if they stand for the same. -/
theorem beq_iff {a b : Literal} :
    (a == b) = true ↔ ∃ m, a.meaning? = some m ∧ b.meaning? = some m := by
  change a.equal b = true ↔ _
  cases a with
  | float x =>
      cases b with
      | float y =>
          change x.toModel.unpack.beq y.toModel.unpack = true ↔ _
          rw [unpacked_beq_iff]
          simp [meaning?]
      | _ => simp [equal, meaning?]
  | _ => cases b <;> simp [equal, meaning?] <;> exact eq_comm

end Literal

end LintEngine
