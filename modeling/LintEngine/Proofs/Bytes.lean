import LintEngine.Text.Basic
import Mathlib.Data.List.Basic
import Mathlib.Tactic.SplitIfs

/-!
Byte offsets. An offset names a place between two characters just if it is the
length in bytes of what stands before that place. Every character has at least
one byte, so a text has at most one such place for an offset, and offsets are in
the order of the places. The byte of a newline stands for a newline wherever it occurs.
-/

namespace LintEngine.Text

variable {xs ys cs : List Char}

@[simp] theorem byteLength_nil : byteLength [] = 0 := rfl

@[simp] theorem byteLength_cons (c : Char) (cs : List Char) :
    byteLength (c :: cs) = c.utf8Size + byteLength cs := rfl

@[simp] theorem byteLength_append (xs ys : List Char) :
    byteLength (xs ++ ys) = byteLength xs + byteLength ys := by
  induction xs with
  | nil => simp
  | cons x xs ih =>
      simp only [List.cons_append, byteLength_cons, ih]
      omega

theorem byteLength_toList (s : String) : byteLength s.toList = s.utf8ByteSize := by
  have hlist : ∀ cs, byteLength cs = (String.ofList cs).utf8ByteSize := by
    intro cs
    induction cs with
    | nil => rfl
    | cons c cs ih =>
        rw [byteLength_cons, ih, String.ofList_cons, String.utf8ByteSize_append,
          String.utf8ByteSize_singleton]
  rw [hlist, String.ofList_toList]

theorem byteLength_pos (h : cs ≠ []) : 0 < byteLength cs := by
  cases cs with
  | nil => exact (h rfl).elim
  | cons c cs =>
      have := c.utf8Size_pos
      rw [byteLength_cons]
      omega

/-- Two places of one text with the same offset are the same. -/
theorem eq_of_byteLength_eq {xs' ys' : List Char} (h : xs ++ ys = xs' ++ ys')
    (hlength : byteLength xs = byteLength xs') : xs = xs' ∧ ys = ys' := by
  induction xs generalizing xs' with
  | nil =>
      cases xs' with
      | nil => exact ⟨rfl, h⟩
      | cons x xs' =>
          have := byteLength_pos (List.cons_ne_nil x xs')
          rw [byteLength_nil] at hlength
          omega
  | cons x xs ih =>
      cases xs' with
      | nil =>
          have := byteLength_pos (List.cons_ne_nil x xs)
          rw [byteLength_nil] at hlength
          omega
      | cons x' xs' =>
          obtain ⟨rfl, htail⟩ := List.cons.inj h
          obtain ⟨rfl, rfl⟩ := ih htail (by simpa using hlength)
          exact ⟨rfl, rfl⟩

theorem dropBytes?_cons (c : Char) (cs : List Char) (n : Nat) :
    dropBytes? (c :: cs) (c.utf8Size + n) = dropBytes? cs n := by
  have hc := c.utf8Size_pos
  obtain ⟨k, hk⟩ : ∃ k, c.utf8Size + n = k + 1 := ⟨c.utf8Size + n - 1, by omega⟩
  rw [hk, dropBytes?, if_pos (by omega), show k + 1 - c.utf8Size = n by omega]

theorem takeBytes?_cons (c : Char) (cs : List Char) (n : Nat) :
    takeBytes? (c :: cs) (c.utf8Size + n) = (takeBytes? cs n).map (c :: ·) := by
  have hc := c.utf8Size_pos
  obtain ⟨k, hk⟩ : ∃ k, c.utf8Size + n = k + 1 := ⟨c.utf8Size + n - 1, by omega⟩
  rw [hk, takeBytes?, if_pos (by omega), show k + 1 - c.utf8Size = n by omega]

theorem dropBytes?_append (xs ys : List Char) :
    dropBytes? (xs ++ ys) (byteLength xs) = some ys := by
  induction xs with
  | nil => cases ys <;> rfl
  | cons x xs ih => rw [List.cons_append, byteLength_cons, dropBytes?_cons, ih]

theorem takeBytes?_append (xs ys : List Char) :
    takeBytes? (xs ++ ys) (byteLength xs) = some xs := by
  induction xs with
  | nil => cases ys <;> rfl
  | cons x xs ih => rw [List.cons_append, byteLength_cons, takeBytes?_cons, ih, Option.map_some]

theorem sliceChars?_append (xs ys zs : List Char) :
    sliceChars? (xs ++ ys ++ zs) (byteLength xs) (byteLength (xs ++ ys)) = some ys := by
  rw [sliceChars?, byteLength_append, if_pos (Nat.le_add_right ..), List.append_assoc,
    dropBytes?_append, Nat.add_sub_cancel_left]
  exact takeBytes?_append ys zs

/-! ### Encoded text -/

def encode (cs : List Char) : List UInt8 := cs.flatMap String.utf8EncodeChar

theorem encode_cons (c : Char) (cs : List Char) :
    encode (c :: cs) = String.utf8EncodeChar c ++ encode cs := List.flatMap_cons

theorem encode_append (xs ys : List Char) : encode (xs ++ ys) = encode xs ++ encode ys :=
  List.flatMap_append

theorem encode_toList (s : String) : encode s.toList = s.toUTF8.data.toList := by
  rw [String.toUTF8_eq_toByteArray, ← String.utf8Encode_toList, List.utf8Encode,
    List.toList_data_toByteArray, encode]

theorem length_encode (cs : List Char) : (encode cs).length = byteLength cs := by
  induction cs with
  | nil => rfl
  | cons c cs ih =>
      rw [encode_cons, List.length_append, String.length_utf8EncodeChar, ih, byteLength_cons]

/-- A byte is the code of its character, or belongs to a character of several bytes. -/
theorem code_or_high_of_mem {c : Char} {b : UInt8} (h : b ∈ String.utf8EncodeChar c) :
    b.toNat = c.toNat ∨ 128 ≤ b.toNat := by
  have hc : c.toNat = c.val.toNat := rfl
  rw [String.utf8EncodeChar] at h
  split_ifs at h <;>
    simp only [List.mem_cons, List.not_mem_nil, or_false] at h <;>
    rcases h with rfl | rfl | rfl | rfl <;> simp only [UInt8.toNat_ofNat'] <;> omega

def newline : UInt8 := 10

theorem newline_not_mem {c : Char} (hc : c ≠ '\n') : newline ∉ String.utf8EncodeChar c := by
  intro h
  rcases code_or_high_of_mem h with hcode | hhigh
  · exact hc (Char.toNat_inj.mp hcode.symm)
  · exact absurd hhigh (by decide)

theorem count_encode (cs : List Char) : (encode cs).count newline = cs.count '\n' := by
  induction cs with
  | nil => rfl
  | cons c cs ih =>
      rw [encode_cons, List.count_append, ih, List.count_cons, Nat.add_comm]
      by_cases hc : c = '\n'
      · subst hc
        rfl
      · rw [List.count_eq_zero_of_not_mem (newline_not_mem hc), if_neg (by simpa using hc)]

end LintEngine.Text
