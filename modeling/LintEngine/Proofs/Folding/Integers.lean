import LintEngine.Folding.Constant
import LintEngine.Proofs.Folding.IntegerTerms
import LintEngine.Tree.Builder

/-!
Folding of integer expressions. Each operator is first shown to do on literals
what it means on the values they hold, for every type of its operands; what it
cannot take has no type. Where an expression has a type, folding can still fail,
and it does so just at a division by zero and at half of a surrogate pair.

The main statement is about all expressions that do not exceed the depth of
folding: they fold just if they have a type and no such fault, and to their value.
-/

namespace LintEngine

open Java

namespace Folding

/-- A literal that holds a value of a type. The types `byte` and `short` have no
literals of their own. -/
inductive Represents : Ty → Value → Literal → Prop
  | byte (v : Int32) : Represents .byte (.number v.toInt) (.int v)
  | short (v : Int32) : Represents .short (.number v.toInt) (.int v)
  | int (v : Int32) : Represents .int (.number v.toInt) (.int v)
  | long (v : Int64) : Represents .long (.number v.toInt) (.long v)
  | char (c : Char) : Represents .char (.number c.toNat) (.char c)
  | boolean (b : Bool) : Represents .boolean (.truth b) (.bool b)

/-- The answer for an expression with a type and a value: the literal that holds
the value, and nothing if the expression has no type or there is a fault in it. -/
inductive Answers : Option Literal → Option Ty → Bool → Value → Prop
  | holds {t : Ty} {x : Value} {l : Literal} (h : Represents t x l) :
      Answers (some l) (some t) false x
  | untyped {fault : Bool} {x : Value} : Answers none none fault x
  | faulty {type : Option Ty} {x : Value} : Answers none type true x

namespace Answers

theorem int {v : Int32} {n : Int} (h : v.toInt = n) :
    Answers (some (.int v)) (some .int) false (.number n) :=
  .holds (h ▸ .int v)

theorem long {v : Int64} {n : Int} (h : v.toInt = n) :
    Answers (some (.long v)) (some .long) false (.number n) :=
  .holds (h ▸ .long v)

theorem truth (b : Bool) : Answers (some (.bool b)) (some .boolean) false (.truth b) :=
  .holds (.boolean b)

/-- An operation on the answer for an operand. -/
theorem bind {answer : Option Literal} {type : Option Ty} {fault : Bool} {x : Value}
    (h : Answers answer type fault x) {f : Literal → Option Literal} {g : Ty → Option Ty}
    {fault' : Bool} {y : Value}
    (hstep : ∀ t l, type = some t → Represents t x l → Answers (f l) (g t) fault' y) :
    Answers (answer.bind f) (type.bind g) (fault || fault') y := by
  cases h with
  | holds h => exact hstep _ _ rfl h
  | untyped => exact .untyped
  | faulty => exact .faulty

end Answers

namespace Integral

def type : Integral → Ty
  | int _ => .int
  | long _ => .long

def number : Integral → Int
  | int v => v.toInt
  | long v => v.toInt

theorem promoted?_type (i : Integral) : i.type.promoted? = some i.type := by
  cases i <;> rfl

theorem wide_toInt (i : Integral) : i.wide.toInt = i.number := by
  cases i with
  | int v => exact Int32.toInt_toInt64 v
  | long v => rfl

end Integral

structure Promotes (t : Ty) (x : Value) (l : Literal) (i : Integral) : Prop where
  type : t.promoted? = some i.type
  width : t.width = i.type.width
  value : x = .number i.number
  operand : Integral.ofLiteral? l = some i
  asInt : l.asInt = some i.wide
  notFloat : isFloat l = false
  notString : isString l = false
  notBool : ∀ b, l ≠ .bool b

theorem Represents.truth_or_promotes {t : Ty} {x : Value} {l : Literal} (h : Represents t x l) :
    (∃ b, t = .boolean ∧ x = .truth b ∧ l = .bool b) ∨ ∃ i, Promotes t x l i := by
  cases h with
  | boolean b => exact .inl ⟨b, rfl, rfl, rfl⟩
  | byte v | short v | int v => exact .inr ⟨.int v, rfl, rfl, rfl, rfl, rfl, rfl, rfl, nofun⟩
  | long v => exact .inr ⟨.long v, rfl, rfl, rfl, rfl, rfl, rfl, rfl, nofun⟩
  | char c =>
      have hcode : c.toNat < 0xD800 ∨ 0xDFFF < c.toNat ∧ c.toNat < 0x110000 := c.valid
      have hlt : c.toNat < 2 ^ 31 := by omega
      have hint : (Int32.ofNat c.toNat).toInt = c.toNat :=
        Int32.toInt_ofNat_of_lt hlt
      have hlong : Int64.ofNat c.toNat = (Int32.ofNat c.toNat).toInt64 := by
        apply Int64.toInt_inj.mp
        rw [Int32.toInt_toInt64, hint]
        exact Int64.toInt_ofNat_of_lt (Nat.lt_trans hlt (by decide))
      exact .inr ⟨.int (Int32.ofNat c.toNat), rfl, rfl, congrArg Value.number hint.symm, rfl,
        congrArg some hlong, rfl, rfl, nofun⟩

section

variable {s t : Ty} {x y : Value} {l r : Literal} {i j : Integral}

theorem Promotes.ne_boolean (h : Promotes t x l i) : t ≠ .boolean := by
  rintro rfl
  cases h.type

/-! ### Unary operators -/

theorem Promotes.unary_eq (h : Promotes t x l i) (op : String) :
    unary op l = unaryIntegral op i := by
  unfold unary
  split
  · cases h.notFloat
  · cases h.notFloat
  · exact absurd rfl (h.notBool _)
  · rw [h.operand, Option.bind_some]

theorem unaryIntegral_answers (op : UnaryOp) (i : Integral) :
    Answers (unaryIntegral op.symbol i) (op.type? i.type) false
      (op.value i.type.width (.number i.number)) := by
  cases i with
  | int v =>
      cases op with
      | plus => exact .int rfl
      | minus => exact .int (Int32.toInt_neg v)
      | complement => exact .int (Int32.toInt_not v)
      | not => exact .untyped
  | long v =>
      cases op with
      | plus => exact .long rfl
      | minus => exact .long (Int64.toInt_neg v)
      | complement => exact .long (Int64.toInt_not v)
      | not => exact .untyped

theorem Promotes.unaryType? (h : Promotes t x l i) (op : UnaryOp) :
    op.type? t = op.type? i.type := by
  cases op with
  | plus | minus | complement => exact h.type.trans i.promoted?_type.symm
  | not =>
      rw [UnaryOp.type?, if_neg h.ne_boolean]
      cases i <;> rfl

theorem unary_answers (h : Represents t x l) (op : UnaryOp) :
    Answers (unary op.symbol l) (op.type? t) false (op.value t.width x) := by
  rcases h.truth_or_promotes with ⟨b, rfl, rfl, rfl⟩ | ⟨i, hi⟩
  · cases op with
    | not => exact .truth _
    | plus | minus | complement => exact .untyped
  · rw [hi.unary_eq, hi.width, hi.value, hi.unaryType?]
    exact unaryIntegral_answers op i

/-! ### Binary operators -/

theorem int32_arithmetic_answers (o : Arithmetic) (a b : Int32) :
    Answers ((int32 o.symbol a b).map .int) (some .int) (o.divides && b.toInt == 0)
      (.number (Word.wrap 32 (o.exact a.toInt b.toInt))) := by
  have hzero : (b.toInt == 0) = (b == 0) := by
    rw [Bool.eq_iff_iff, beq_iff_eq, beq_iff_eq, ← Int32.toInt_inj]
    rfl
  cases o with
  | add => exact .int (Int32.toInt_add a b)
  | sub => exact .int (Int32.toInt_sub a b)
  | mul => exact .int (Int32.toInt_mul a b)
  | div =>
      change Answers ((if b == 0 then none else some (a / b)).map _) _ (b.toInt == 0) _
      rw [hzero]
      cases b == 0 with
      | true => exact .faulty
      | false => exact .int (Int32.toInt_div a b)
  | rem =>
      change Answers ((if b == 0 then none else some (a % b)).map _) _ (b.toInt == 0) _
      rw [hzero]
      cases b == 0 with
      | true => exact .faulty
      | false =>
          -- a remainder is in range already
          have hwrap : (a % b).toInt = Word.wrap 32 (a.toInt.tmod b.toInt) := by
            rw [← Int32.toInt_mod]
            exact (Int32.toInt_bmod _).symm
          exact .int hwrap

theorem int64_arithmetic_answers (o : Arithmetic) (a b : Int64) :
    Answers ((int64 o.symbol a b).map .long) (some .long) (o.divides && b.toInt == 0)
      (.number (Word.wrap 64 (o.exact a.toInt b.toInt))) := by
  have hzero : (b.toInt == 0) = (b == 0) := by
    rw [Bool.eq_iff_iff, beq_iff_eq, beq_iff_eq, ← Int64.toInt_inj]
    rfl
  cases o with
  | add => exact .long (Int64.toInt_add a b)
  | sub => exact .long (Int64.toInt_sub a b)
  | mul => exact .long (Int64.toInt_mul a b)
  | div =>
      change Answers ((if b == 0 then none else some (a / b)).map _) _ (b.toInt == 0) _
      rw [hzero]
      cases b == 0 with
      | true => exact .faulty
      | false => exact .long (Int64.toInt_div a b)
  | rem =>
      change Answers ((if b == 0 then none else some (a % b)).map _) _ (b.toInt == 0) _
      rw [hzero]
      cases b == 0 with
      | true => exact .faulty
      | false =>
          have hwrap : (a % b).toInt = Word.wrap 64 (a.toInt.tmod b.toInt) := by
            rw [← Int64.toInt_mod]
            exact (Int64.toInt_bmod _).symm
          exact .long hwrap

theorem int32_bitwise_answers (o : Bitwise) (a b : Int32) :
    Answers ((int32 o.symbol a b).map .int) (some .int) false
      (.number (o.onNumbers a.toInt b.toInt)) := by
  rw [← Int32.toInt_toBitVec a, ← Int32.toInt_toBitVec b]
  cases o with
  | and => exact .int (Word.toInt_and a.toBitVec b.toBitVec)
  | or => exact .int (Word.toInt_or a.toBitVec b.toBitVec)
  | xor => exact .int (Word.toInt_xor a.toBitVec b.toBitVec)

theorem int64_bitwise_answers (o : Bitwise) (a b : Int64) :
    Answers ((int64 o.symbol a b).map .long) (some .long) false
      (.number (o.onNumbers a.toInt b.toInt)) := by
  rw [← Int64.toInt_toBitVec a, ← Int64.toInt_toBitVec b]
  cases o with
  | and => exact .long (Word.toInt_and a.toBitVec b.toBitVec)
  | or => exact .long (Word.toInt_or a.toBitVec b.toBitVec)
  | xor => exact .long (Word.toInt_xor a.toBitVec b.toBitVec)

theorem shift_answers (o : Shift) (i : Integral) (count : Int64) :
    Answers (shift o.symbol i count) (some i.type) false
      (.number (o.apply i.type.width i.number (count.toInt % i.type.width).toNat)) := by
  cases i with
  | int v =>
      cases o with
      | left => exact .int (Word.int32_shiftLeft count v)
      | right => exact .int (Word.int32_shiftRight count v)
      | logical => exact .int (Word.int32_shiftRightLogical count v)
  | long v =>
      cases o with
      | left => exact .long (Word.int64_shiftLeft v count)
      | right => exact .long (Word.int64_shiftRight v count)
      | logical => exact .long (Word.int64_shiftRightLogical v count)

theorem compare_symbol (o : Comparison) (a b : Int64) :
    compare o.symbol a b = some (o.holds a.toInt b.toInt) := by
  cases o with
  | lt => exact congrArg some (decide_eq_decide.mpr Int64.lt_iff_toInt_lt)
  | le => exact congrArg some (decide_eq_decide.mpr Int64.le_iff_toInt_le)
  | gt => exact congrArg some (decide_eq_decide.mpr Int64.lt_iff_toInt_lt)
  | ge => exact congrArg some (decide_eq_decide.mpr Int64.le_iff_toInt_le)
  | eq =>
      change some (a == b) = some (decide (a.toInt = b.toInt))
      simp only [Int64.toInt_inj, beq_eq_decide]
  | ne =>
      change some (!(a == b)) = some (decide (a.toInt ≠ b.toInt))
      simp only [ne_eq, Int64.toInt_inj, beq_eq_decide, decide_not]

/-- An operator that is no comparison and no shift works at the width that its
operands have in common. -/
theorem integral_promoted {op : String} (fault : Int → Bool) (f : Nat → Int → Int → Int)
    (hcompare : ∀ a b, compare op a b = none) (hshift : ∀ i count, shift op i count = none)
    (hint : ∀ a b : Int32, Answers ((int32 op a b).map .int) (some .int) (fault b.toInt)
      (.number (f 32 a.toInt b.toInt)))
    (hlong : ∀ a b : Int64, Answers ((int64 op a b).map .long) (some .long) (fault b.toInt)
      (.number (f 64 a.toInt b.toInt))) (i j : Integral) :
    Answers (integral op i j) (i.type.common? j.type) (fault j.number)
      (.number (f (max i.type.width j.type.width) i.number j.number)) := by
  have hwide := hlong i.wide j.wide
  rw [i.wide_toInt, j.wide_toInt] at hwide
  unfold integral
  rw [hcompare, hshift]
  cases i with
  | int a =>
      cases j with
      | int b => exact hint a b
      | long b => exact hwide
  | long a =>
      cases j with
      | int b => exact hwide
      | long b => exact hwide

theorem integral_answers (op : BinaryOp) (i j : Integral) :
    Answers (integral op.symbol i j) (op.onNumbers? i.type j.type) (op.divides && j.number == 0)
      (op.value i.type.width j.type.width (.number i.number) (.number j.number)) := by
  cases op with
  | arithmetic o =>
      exact integral_promoted (fun n => o.divides && n == 0)
        (fun w m n => Word.wrap w (o.exact m n)) (by cases o <;> intros <;> rfl)
        (by cases o <;> intro i _ <;> cases i <;> rfl) (int32_arithmetic_answers o)
        (int64_arithmetic_answers o) i j
  | bitwise o =>
      exact integral_promoted (fun _ => false) (fun _ => o.onNumbers)
        (by cases o <;> intros <;> rfl) (by cases o <;> intro i _ <;> cases i <;> rfl)
        (int32_bitwise_answers o) (int64_bitwise_answers o) i j
  | shift o =>
      have htype : (BinaryOp.shift o).onNumbers? i.type j.type = some i.type := by
        cases i <;> cases j <;> rfl
      have hcompare : compare o.symbol i.wide j.wide = none := by cases o <;> rfl
      have hshift := shift_answers o i j.wide
      rw [j.wide_toInt] at hshift
      rw [htype, BinaryOp.symbol]
      unfold integral
      rw [hcompare]
      generalize shift o.symbol i j.wide = answer at hshift ⊢
      cases hshift with
      | holds h => exact .holds h
  | comparison o =>
      have htype : (BinaryOp.comparison o).onNumbers? i.type j.type = some .boolean := by
        cases i <;> cases j <;> rfl
      have h : integral o.symbol i j = some (.bool (o.holds i.number j.number)) := by
        unfold integral
        rw [compare_symbol, i.wide_toInt, j.wide_toInt]
      rw [htype, BinaryOp.symbol, h]
      exact .truth _
  | logical o =>
      cases o <;> cases i <;> cases j <;> exact .untyped

theorem binary_bools (op : BinaryOp) (a b : Bool) :
    Answers (binary op.symbol (.bool a) (.bool b)) op.onTruths? false
      (op.value 32 32 (.truth a) (.truth b)) := by
  cases op with
  | arithmetic o => cases o <;> exact .untyped
  | bitwise o => cases o <;> exact .truth _
  | shift o => cases o <;> exact .untyped
  | comparison o =>
      cases o with
      | eq | ne => exact .truth _
      | lt | le | gt | ge => exact .untyped
  | logical o => cases o <;> exact .truth _

theorem Promotes.binary_eq (h : Promotes s x l i) (h' : Promotes t y r j) (op : String) :
    binary op l r = integral op i j := by
  unfold binary
  rw [h.notString, h'.notString, Bool.or_false, Bool.and_false, if_neg Bool.false_ne_true]
  split
  · exact absurd rfl (h.notBool _)
  · rw [h.notFloat, h'.notFloat, h.operand, h'.operand]
    rfl

theorem Promotes.binary_bool (h : Promotes s x l i) (op : String) (b : Bool) :
    binary op l (.bool b) = none ∧ binary op (.bool b) l = none := by
  have hstring : isString (.bool b) = false := rfl
  constructor
  · unfold binary
    rw [h.notString, hstring, Bool.or_false, Bool.and_false, if_neg Bool.false_ne_true]
    split
    · exact absurd rfl (h.notBool _)
    · rw [h.notFloat, h.operand]
      rfl
  · unfold binary
    rw [h.notString, hstring, Bool.or_false, Bool.and_false, if_neg Bool.false_ne_true]
    split
    · exact absurd rfl (h.notBool _)
    · rw [h.notFloat]
      rfl

/-- Only the promoted types of the operands count. -/
theorem Promotes.onNumbers?_eq (h : Promotes s x l i) (h' : Promotes t y r j) (op : BinaryOp) :
    op.onNumbers? s t = op.onNumbers? i.type j.type := by
  have hcommon : s.common? t = i.type.common? j.type := by
    rw [Ty.common?, Ty.common?, h.type, h'.type, i.promoted?_type, j.promoted?_type]
  cases op with
  | arithmetic o | bitwise o => exact hcommon
  | shift o =>
      rw [BinaryOp.onNumbers?, BinaryOp.onNumbers?, h.type, h'.type, i.promoted?_type,
        j.promoted?_type]
  | comparison o => rw [BinaryOp.onNumbers?, BinaryOp.onNumbers?, hcommon]
  | logical o => rfl

theorem onNumbers?_boolean (op : BinaryOp) (t : Ty) :
    op.onNumbers? t .boolean = none ∧ op.onNumbers? .boolean t = none := by
  cases op <;> cases t <;> exact ⟨rfl, rfl⟩

theorem binary_answers (h : Represents s x l) (h' : Represents t y r) (op : BinaryOp) :
    Answers (binary op.symbol l r) (op.type? s t) (op.divides && y == .number 0)
      (op.value s.width t.width x y) := by
  rcases h.truth_or_promotes with ⟨a, rfl, rfl, rfl⟩ | ⟨i, hi⟩
  · rcases h'.truth_or_promotes with ⟨b, rfl, rfl, rfl⟩ | ⟨j, hj⟩
    · have hfault : (op.divides && Value.truth b == .number 0) = false := Bool.and_false _
      rw [hfault, BinaryOp.type?, if_pos ⟨rfl, rfl⟩]
      exact binary_bools op a b
    · rw [(hj.binary_bool _ a).2, BinaryOp.type?, if_neg fun hboth => hj.ne_boolean hboth.2,
        (onNumbers?_boolean op t).2]
      exact .untyped
  · rw [BinaryOp.type?, if_neg fun hboth => hi.ne_boolean hboth.1]
    rcases h'.truth_or_promotes with ⟨b, rfl, rfl, rfl⟩ | ⟨j, hj⟩
    · rw [(hi.binary_bool _ b).1, (onNumbers?_boolean op s).1]
      exact .untyped
    · have hfault : (y == .number 0) = (j.number == 0) := by
        rw [hj.value, Bool.eq_iff_iff, beq_iff_eq, beq_iff_eq, Value.number.injEq]
      rw [hi.binary_eq hj, hi.onNumbers?_eq hj, hfault, hi.width, hj.width, hi.value, hj.value]
      exact integral_answers op i j

/-! ### Casts -/

theorem strip_name (t : Ty) : TypeName.strip t.name = t.name := by
  cases t <;> decide +kernel

/-- A number of 16 bits is a character or half of a surrogate pair. -/
theorem charOf?_answers {n : Nat} (hn : n < 2 ^ 16) :
    Answers ((Text.charOf? n).map .char) (some .char) (Value.number n).isSurrogate (.number n) := by
  cases hsurrogate : (Value.number n).isSurrogate with
  | true =>
      have hrange : 0xD800 ≤ (n : Int) ∧ (n : Int) ≤ 0xDFFF := by
        simpa [Value.isSurrogate] using hsurrogate
      have hnone : Text.charOf? n = none := by
        rw [Text.charOf?, if_neg]
        simp
        omega
      rw [hnone]
      exact .faulty
  | false =>
      have hrange : ¬(0xD800 ≤ (n : Int) ∧ (n : Int) ≤ 0xDFFF) := by
        simpa [Value.isSurrogate] using hsurrogate
      have hvalid : n.isValidChar := by
        unfold Nat.isValidChar
        omega
      have hsome : Text.charOf? n = some (Char.ofNat n) := by
        rw [Text.charOf?, if_pos]
        simp
        omega
      have hcode : (Char.ofNat n).toNat = n := by
        rw [Char.ofNat, dif_pos hvalid]
        rfl
      rw [hsome]
      exact .holds (by simpa only [hcode] using Represents.char (Char.ofNat n))

theorem Promotes.cast_name (h : Promotes s x l i) (t : Ty) :
    cast t.name l = match t with
      | .byte => some (.int i.wide.toInt8.toInt32)
      | .short => some (.int i.wide.toInt16.toInt32)
      | .char => (Text.charOf? i.wide.toUInt64.toUInt16.toNat).map .char
      | .int => some (.int i.wide.toInt32)
      | .long => some (.long i.wide)
      | .boolean => none := by
  unfold cast
  rw [strip_name]
  cases t with
  | byte | short | char =>
      rw [h.asInt]
      rfl
  | int | long =>
      have hasInt := h.asInt
      cases l with
      | float f => cases h.notFloat
      | int v | long v | char c | bool b | str v | null => simp [Ty.name, hasInt]
  | boolean =>
      cases l with
      | bool b => exact absurd rfl (h.notBool b)
      | int v | long v | float f | char c | str v | null => rfl

theorem cast_bool (t : Ty) (b : Bool) :
    Answers (cast t.name (.bool b)) (Ty.boolean.cast? t)
      (t == .char && (t.convert (.truth b)).isSurrogate) (t.convert (.truth b)) := by
  unfold cast
  rw [strip_name]
  cases t with
  | boolean => exact .truth b
  | byte | short | char | int | long => exact .untyped

/-- The lowest bits of a word as an unsigned number. -/
theorem toNat_toUInt16 (n : Int64) : (n.toUInt64.toUInt16.toNat : Int) = n.toInt % 2 ^ 16 := by
  have hword : (n.toUInt64.toNat : Int) = n.toInt % 2 ^ 64 := Word.toNat_eq_emod n.toBitVec
  rw [UInt64.toNat_toUInt16]
  push_cast
  rw [hword, Int.emod_emod_of_dvd _ (by decide)]

theorem Promotes.cast_answers (h : Promotes s x l i) (t : Ty) :
    Answers (cast t.name l) (s.cast? t) (t == .char && (t.convert x).isSurrogate)
      (t.convert x) := by
  have hnumber : ∀ t, t ≠ .boolean → s.cast? t = some t := by
    intro t ht
    rw [Ty.cast?, if_pos (iff_of_false h.ne_boolean ht)]
  rw [h.cast_name, h.value, ← i.wide_toInt]
  cases t with
  | byte =>
      rw [hnumber .byte (by decide)]
      have hbits : i.wide.toInt8.toInt32.toInt = Word.wrap 8 i.wide.toInt := by
        rw [Int8.toInt_toInt32, Int64.toInt_toInt8, Word.wrap]
      rw [Ty.convert, ← hbits]
      exact .holds (.byte _)
  | short =>
      rw [hnumber .short (by decide)]
      have hbits : i.wide.toInt16.toInt32.toInt = Word.wrap 16 i.wide.toInt := by
        rw [Int16.toInt_toInt32, Int64.toInt_toInt16, Word.wrap]
      rw [Ty.convert, ← hbits]
      exact .holds (.short _)
  | char =>
      rw [hnumber .char (by decide), Ty.convert, ← toNat_toUInt16]
      exact charOf?_answers (UInt16.toNat_lt _)
  | int =>
      rw [hnumber .int (by decide)]
      exact .int (Int64.toInt_toInt32 _)
  | long =>
      rw [hnumber .long (by decide)]
      exact .long (Int64.toInt_bmod _).symm
  | boolean =>
      rw [Ty.cast?, if_neg fun hiff => h.ne_boolean (hiff.mpr rfl)]
      exact .untyped

theorem cast_answers (h : Represents s x l) (t : Ty) :
    Answers (cast t.name l) (s.cast? t) (t == .char && (t.convert x).isSurrogate)
      (t.convert x) := by
  rcases h.truth_or_promotes with ⟨b, rfl, rfl, rfl⟩ | ⟨i, hi⟩
  · exact cast_bool t b
  · exact hi.cast_answers t

end

end Folding

/-! ### Expressions -/

open Folding

namespace Java.Term

def fault (t : Term) : Bool := t.dividesByZero || t.producesSurrogate

theorem fault_binary (op : BinaryOp) (a b : Term) :
    (binary op a b).fault = (a.fault || (b.fault || (op.divides && b.value == .number 0))) := by
  simp only [fault, dividesByZero, producesSurrogate, Bool.or_assoc, Bool.or_comm,
    Bool.or_left_comm]

theorem width_of_type? {t : Term} {s : Ty} (h : t.type? = some s) : t.width = s.width := by
  rw [width, h]
  rfl

/-- Folding follows the structure of the expression, as its meaning does. -/
theorem fold_answers (v : View) (scope : EvalScope) (t : Term) {depth : Nat}
    (h : t.height ≤ depth) :
    Answers (v.fold (depth + 1) scope t.toExpr) t.type? t.fault t.value := by
  induction t generalizing depth with
  | int n => exact .int rfl
  | long n => exact .long rfl
  | char c => exact .holds (.char c)
  | boolean b => exact .truth b
  | unary op x ih =>
      obtain ⟨depth, rfl⟩ := Nat.exists_eq_add_of_le' (Nat.le_of_add_left_le h)
      have hx := ih (Nat.le_of_succ_le_succ h)
      have hfault : (unary op x).fault = (x.fault || false) := (Bool.or_false _).symm
      rw [hfault]
      refine hx.bind fun s l hs hl => ?_
      rw [value, width_of_type? hs]
      exact unary_answers hl op
  | binary op a b iha ihb =>
      obtain ⟨depth, rfl⟩ := Nat.exists_eq_add_of_le' (Nat.le_of_add_left_le h)
      have hmax := Nat.le_of_succ_le_succ h
      have ha := iha (Nat.le_trans (Nat.le_max_left ..) hmax)
      have hb := ihb (Nat.le_trans (Nat.le_max_right ..) hmax)
      rw [fault_binary]
      refine ha.bind fun s l hs hl => hb.bind fun t r ht hr => ?_
      rw [value, width_of_type? hs, width_of_type? ht]
      exact binary_answers hl hr op
  | cast t x ih =>
      obtain ⟨depth, rfl⟩ := Nat.exists_eq_add_of_le' (Nat.le_of_add_left_le h)
      have hx := ih (Nat.le_of_succ_le_succ h)
      have hfault : (cast t x).fault =
          (x.fault || (t == .char && (t.convert x.value).isSurrogate)) :=
        (Bool.or_assoc ..).symm
      rw [hfault]
      exact hx.bind fun s l _ hl => cast_answers hl t

/-- An integer expression of at most 32 levels of nesting folds just if it has a
type, divides by no zero and makes no half of a surrogate pair, and what it folds
to is its value at its type. -/
theorem evaluate_toExpr (v : View) (scope : EvalScope) (t : Term) (h : t.height ≤ 32) :
    ((v.evaluate t.toExpr scope).isSome ↔
      t.WellTyped ∧ t.dividesByZero = false ∧ t.producesSurrogate = false) ∧
    ∀ l, v.evaluate t.toExpr scope = some l → ∃ s, t.type? = some s ∧ Represents s t.value l := by
  have hanswers : Answers (v.evaluate t.toExpr scope) t.type? t.fault t.value :=
    t.fold_answers v scope h
  have hfault : t.fault = false ↔ t.dividesByZero = false ∧ t.producesSurrogate = false :=
    Bool.or_eq_false_iff
  rw [← hfault, WellTyped]
  generalize v.evaluate t.toExpr scope = answer, t.type? = type, t.fault = fault at hanswers ⊢
  cases hanswers with
  | holds hl =>
      refine ⟨by simp, fun l heq => ⟨_, rfl, ?_⟩⟩
      obtain rfl := Option.some.inj heq
      exact hl
  | untyped => simp
  | faulty => simp

def bareView : View where
  tree := (Builder.start ⟨"A.java"⟩ .source .javaFile none {}).build
  symbols := {}

/-- `(byte) (2147483647 + ('a' << 33L))`, where the shift is by one place, the sum
overflows, and the cast drops all bits but eight. -/
def overflowing : Term :=
  .cast .byte (.binary (.arithmetic .add) (.int 2147483647)
    (.binary (.shift .left) (.char 'a') (.long 33)))

theorem evaluate_overflowing :
    overflowing.type? = some .byte ∧ overflowing.value = .number (-63) ∧
      ∃ l, bareView.evaluate overflowing.toExpr (.inClass "") = some l ∧
        Represents .byte (.number (-63)) l := by
  have htype : overflowing.type? = some .byte := by decide
  have hvalue : overflowing.value = .number (-63) := by decide +kernel
  obtain ⟨hfolds, hmeaning⟩ :=
    evaluate_toExpr bareView (.inClass "") overflowing (by decide)
  obtain ⟨l, hl⟩ := Option.isSome_iff_exists.mp
    (hfolds.mpr ⟨by rw [WellTyped, htype]; rfl, by decide, by decide⟩)
  obtain ⟨s, hs, hrepresents⟩ := hmeaning l hl
  obtain rfl := Option.some.inj (htype.symm.trans hs)
  exact ⟨htype, hvalue, l, hl, hvalue ▸ hrepresents⟩

end Java.Term

end LintEngine
