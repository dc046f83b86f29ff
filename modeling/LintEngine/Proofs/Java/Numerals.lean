import LintEngine.Java.Literals
import LintEngine.Proofs.Text.Digits

/-!
Integer literals. A `Numeral` is a number in one of four bases, and `IsWritten` is how it
stands in a program: what announces the base, digits of either case with underscores
between them, and a letter after them if it is a `long`.

A literal is read if its number is at most the greatest of its type, and then as the value
with the bits of that number. So whatever a word is printed as, it is read back.
-/

namespace LintEngine.Java

open Text (Digit numberOf)

/-! ### Notation -/

inductive Base where
  | decimal
  | hexadecimal
  | octal
  | binary
deriving DecidableEq, Repr

namespace Base

def radix : Base → Nat
  | decimal => 10
  | hexadecimal => 16
  | octal => 8
  | binary => 2

def lead : Base → List Char
  | decimal => []
  | hexadecimal => ['0', 'x']
  | octal => ['0']
  | binary => ['0', 'b']

/-- What announces a base, in either case, and with underscores where digits of the number
follow digits of the announcement. -/
inductive Leads : Base → List Char → Prop
  | decimal : Leads decimal []
  | hexadecimal {x : Char} (hx : x = 'x' ∨ x = 'X') : Leads hexadecimal ['0', x]
  | octal (k : Nat) : Leads octal ('0' :: List.replicate k '_')
  | binary {x : Char} (hx : x = 'b' ∨ x = 'B') : Leads binary ['0', x]

/-- The greatest number of a literal. In decimal it is one more than the greatest value of
the type, since it may stand after a minus; in the other bases it is all ones. -/
def greatest : (isLong : Bool) → Base → Nat
  | false, decimal => 0x80000000
  | false, _ => 0xFFFFFFFF
  | true, decimal => 0x8000000000000000
  | true, _ => 0xFFFFFFFFFFFFFFFF

end Base

structure Numeral where
  base : Base
  digits : List (Digit base.radix)
  digits_ne_nil : digits ≠ []
  /-- A decimal number begins with a zero only if it has no other digit. -/
  leading : base = .decimal → ∀ d ∈ digits.head?, d.value = 0 → digits.length = 1

def Numeral.value (n : Numeral) : Nat := numberOf n.digits

inductive Spaced {base : Nat} : List (Digit base) → List Char → Prop
  | last (d : Digit base) : Spaced [d] [d.char]
  | more (d : Digit base) (k : Nat) {ds : List (Digit base)} {cs : List Char} (h : Spaced ds cs) :
      Spaced (d :: ds) (d.char :: List.replicate k '_' ++ cs)

/-- A literal with a number, as an `int` or as a `long`. -/
inductive Numeral.IsWritten (n : Numeral) : (isLong : Bool) → List Char → Prop
  | int {lead body : List Char} (hlead : n.base.Leads lead) (hbody : Spaced n.digits body) :
      n.IsWritten false (lead ++ body)
  | long {lead body : List Char} {c : Char} (hlead : n.base.Leads lead)
      (hbody : Spaced n.digits body) (hsuffix : c = 'l' ∨ c = 'L') :
      n.IsWritten true (lead ++ body ++ [c])

def half (isLong : Bool) : Nat := if isLong then 0x8000000000000000 else 0x80000000

def twosComplement (isLong : Bool) (bits : Nat) : Int :=
  if bits < half isLong then bits else bits - 2 * half isLong

inductive HasValue : (isLong : Bool) → Int → Literal → Prop
  | int (i : Int32) : HasValue false i.toInt (.int i)
  | long (i : Int64) : HasValue true i.toInt (.long i)

def Base.print (base : Base) (bits : Nat) : List Char := base.lead ++ Nat.toDigits base.radix bits

/-! ### Reading -/

theorem Base.radix_le (base : Base) : base.radix ≤ 16 := by cases base <;> decide

theorem Base.one_lt_radix (base : Base) : 1 < base.radix := by cases base <;> decide

theorem filter_replicate_underscore (k : Nat) :
    (List.replicate k '_').filter (· != '_') = [] := by
  simp

theorem Spaced.filter_eq {base : Nat} (hbase : base ≤ 16) {ds : List (Digit base)} {cs : List Char}
    (h : Spaced ds cs) : cs.filter (· != '_') = ds.map (·.char) := by
  have hdigit : ∀ d : Digit base, d.char ≠ '_' := fun d => d.char_ne hbase (by decide)
  induction h with
  | last d => simp [hdigit]
  | more d k _ ih =>
      rw [List.filter_append, ih, List.filter_cons_of_pos (by simp [hdigit]),
        filter_replicate_underscore]
      rfl

theorem Base.Leads.filter_eq {base : Base} {lead : List Char} (h : base.Leads lead) :
    (lead.filter (· != '_')).map Char.toLower = base.lead := by
  cases h with
  | decimal => rfl
  | hexadecimal hx => rcases hx with rfl | rfl <;> rfl
  | octal k =>
      rw [List.filter_cons_of_pos (by decide), filter_replicate_underscore]
      rfl
  | binary hx => rcases hx with rfl | rfl <;> rfl

theorem map_toLower_chars {base : Nat} (hbase : base ≤ 16) (ds : List (Digit base)) :
    (ds.map (·.char)).map Char.toLower = (ds.map Digit.lower).map (·.char) := by
  rw [List.map_map, List.map_map]
  exact List.map_congr_left fun d _ => d.toLower_char hbase

theorem splitSuffix_digit {base : Nat} (hbase : base ≤ 16) (front : List Char)
    {ds : List (Digit base)} (hne : ds ≠ []) :
    splitSuffix (front ++ ds.map (·.char)) = (front ++ ds.map (·.char), false) := by
  have hlast : (front ++ ds.map (·.char)).getLast? = some (ds.getLast hne).char := by
    rw [List.getLast?_append, List.getLast?_map, List.getLast?_eq_some_getLast hne]
    rfl
  have hl : (ds.getLast hne).char ≠ 'l' := Digit.char_ne hbase _ (by decide)
  have hL : (ds.getLast hne).char ≠ 'L' := Digit.char_ne hbase _ (by decide)
  simp [splitSuffix, hlast, hl, hL]

theorem splitSuffix_long (front : List Char) {c : Char} (hc : c = 'l' ∨ c = 'L') :
    splitSuffix (front ++ [c]) = (front, true) := by
  rcases hc with rfl | rfl <;> simp [splitSuffix]

theorem baseOf_zero {c : Char} {cs : List Char} (hx : c ≠ 'x') (hb : c ≠ 'b') :
    baseOf ('0' :: c :: cs) = (8, c :: cs) := by
  unfold baseOf
  split <;> simp_all

theorem baseOf_singleton (c : Char) : baseOf [c] = (10, [c]) := by
  unfold baseOf
  split <;> simp_all

theorem baseOf_ne_zero {c : Char} {cs : List Char} (h : c ≠ '0') :
    baseOf (c :: cs) = (10, c :: cs) := by
  simp [baseOf, h]

/-- The base is told by the announcement. -/
theorem Numeral.baseOf_eq (n : Numeral) :
    baseOf (n.base.lead ++ (n.digits.map Digit.lower).map (·.char)) =
      (n.base.radix, (n.digits.map Digit.lower).map (·.char)) := by
  obtain ⟨base, digits, hne, hleading⟩ := n
  obtain ⟨d, ds, rfl⟩ := List.exists_cons_of_ne_nil hne
  cases base with
  | hexadecimal => rfl
  | binary => rfl
  | octal =>
      -- no octal digit announces another base
      have h : ∀ v ∈ List.range 8, Nat.digitChar v ≠ 'x' ∧ Nat.digitChar v ≠ 'b' := by decide
      obtain ⟨hx, hb⟩ := h d.value (List.mem_range.mpr d.value_lt)
      exact baseOf_zero hx hb
  | decimal =>
      cases ds with
      | nil => exact baseOf_singleton _
      | cons d' ds =>
          have hvalue : d.value ≠ 0 := fun hzero => by
            simpa using hleading rfl d rfl hzero
          have h : ∀ v ∈ List.range 10, v ≠ 0 → Nat.digitChar v ≠ '0' := by decide
          exact baseOf_ne_zero (h d.value (List.mem_range.mpr d.value_lt) hvalue)

theorem greatest_eq (isLong : Bool) (base : Base) :
    (if base.radix == 10 then Word.size ((if isLong then 64 else 32) - 1)
      else Word.size (if isLong then 64 else 32) - 1) = base.greatest isLong := by
  cases isLong <;> cases base <;> rfl

def ofBits (isLong : Bool) (bits : Nat) : Literal :=
  if isLong then .long (Int64.ofNat bits) else .int (Int32.ofNat bits)

theorem Numeral.IsWritten.integer?_eq {n : Numeral} {isLong : Bool} {text : String}
    (h : n.IsWritten isLong text.toList) :
    integer? text =
      if n.value ≤ n.base.greatest isLong then some (ofBits isLong n.value) else none := by
  have hbase := n.base.radix_le
  have hsplit : ∃ lead, (lead.map Char.toLower = n.base.lead) ∧
      splitSuffix (text.toList.filter (· != '_')) = (lead ++ n.digits.map (·.char), isLong) := by
    generalize text.toList = cs at h
    cases h with
    | @int lead _ hlead hbody =>
        refine ⟨_, hlead.filter_eq, ?_⟩
        rw [List.filter_append, hbody.filter_eq hbase, splitSuffix_digit hbase _ n.digits_ne_nil]
    | @long lead _ c hlead hbody hsuffix =>
        refine ⟨_, hlead.filter_eq, ?_⟩
        have hc : [c].filter (· != '_') = [c] := by rcases hsuffix with rfl | rfl <;> rfl
        rw [List.filter_append, List.filter_append, hbody.filter_eq hbase, hc,
          splitSuffix_long _ hsuffix]
  obtain ⟨lead, hlead, hsplit⟩ := hsplit
  have hnumber : Text.unsigned? n.base.radix ((n.digits.map Digit.lower).map (·.char)) =
      some n.value := by
    rw [Text.unsigned?_digits hbase (by simpa using n.digits_ne_nil), Text.numberOf_map_lower]
    rfl
  simp only [integer?, hsplit, List.map_append, hlead, map_toLower_chars hbase, n.baseOf_eq,
    hnumber, greatest_eq, Option.filter_some, ofBits]
  by_cases hle : n.value ≤ n.base.greatest isLong <;> simp [hle]

/-! ### Values -/

theorem Base.greatest_lt (isLong : Bool) (base : Base) :
    base.greatest isLong < 2 * half isLong := by
  cases isLong <;> cases base <;> decide

theorem twosComplement_eq_bmod {isLong : Bool} {bits : Nat} (h : bits < 2 * half isLong) :
    twosComplement isLong bits = (bits : Int).bmod (2 * half isLong) := by
  rw [twosComplement, Int.bmod_def, Int.emod_eq_of_lt (by omega) (by omega)]
  split_ifs <;> omega

theorem hasValue_ofBits {isLong : Bool} {bits : Nat} (h : bits < 2 * half isLong) :
    HasValue isLong (twosComplement isLong bits) (ofBits isLong bits) := by
  rw [twosComplement_eq_bmod h]
  cases isLong with
  | false =>
      have hvalue : (Int32.ofNat bits).toInt = (bits : Int).bmod (2 * half false) :=
        Int32.toInt_ofNat'
      exact hvalue ▸ .int _
  | true =>
      have hvalue : (Int64.ofNat bits).toInt = (bits : Int).bmod (2 * half true) :=
        Int64.toInt_ofNat'
      exact hvalue ▸ .long _

theorem Base.le_greatest {isLong : Bool} {base : Base} {bits : Nat} (h : bits < 2 * half isLong)
    (hdecimal : base = .decimal → bits < half isLong) : bits ≤ base.greatest isLong := by
  cases base with
  | decimal =>
      have hlt := hdecimal rfl
      cases isLong <;> exact Nat.le_of_lt hlt
  | _ => cases isLong <;> exact Nat.le_of_lt_succ h

theorem toNat_lt_of_nonneg {w : Nat} {x : BitVec w} (h : 0 ≤ x.toInt) : 2 * x.toNat < 2 ^ w := by
  by_contra hlt
  have hx := x.isLt
  rw [BitVec.toInt_eq_toNat_cond, if_neg hlt] at h
  omega

theorem Spaced.chars {base : Nat} {ds : List (Digit base)} (hne : ds ≠ []) :
    Spaced ds (ds.map (·.char)) := by
  induction ds with
  | nil => exact absurd rfl hne
  | cons d ds ih =>
      cases ds with
      | nil => exact .last d
      | cons d' ds => exact .more d 0 (ih (List.cons_ne_nil _ _))

theorem Base.leads_lead (base : Base) : base.Leads base.lead := by
  cases base with
  | decimal => exact .decimal
  | hexadecimal => exact .hexadecimal (.inl rfl)
  | octal => exact .octal 0
  | binary => exact .binary (.inl rfl)

/-- What is printed is a literal with the number. -/
theorem Base.exists_numeral (base : Base) (bits : Nat) :
    ∃ n : Numeral, n.base = base ∧ n.value = bits ∧ n.IsWritten false (base.print bits) ∧
      n.IsWritten true (base.print bits ++ ['L']) := by
  obtain ⟨ds, hne, hchars, hvalue, hhead⟩ := Text.exists_digits base.one_lt_radix bits
  have hbody : Spaced ds (Nat.toDigits base.radix bits) := hchars ▸ Spaced.chars hne
  exact ⟨⟨base, ds, hne, fun _ => hhead⟩, rfl, hvalue, .int base.leads_lead hbody,
    .long base.leads_lead hbody (.inr rfl)⟩

/-- A number that fits the type is read, in decimal if the type's sign is left free. -/
theorem Numeral.IsWritten.read {n : Numeral} {isLong : Bool} {chars : List Char}
    (h : n.IsWritten isLong chars) (hlt : n.value < 2 * half isLong)
    (hdecimal : n.base = .decimal → 2 * n.value < 2 * half isLong) :
    integer? (String.ofList chars) = some (ofBits isLong n.value) := by
  have hfits : n.value ≤ n.base.greatest isLong :=
    Base.le_greatest hlt fun hbase => Nat.lt_of_mul_lt_mul_left (hdecimal hbase)
  rw [Numeral.IsWritten.integer?_eq (by rwa [String.toList_ofList]), if_pos hfits]

theorem ofNat_toUInt32 (i : Int32) : Int32.ofNat i.toUInt32.toNat = i := by
  rw [← Int32.toBitVec_inj]
  exact (BitVec.ofNat_toNat _ _).trans (BitVec.setWidth_eq _)

theorem ofNat_toUInt64 (i : Int64) : Int64.ofNat i.toUInt64.toNat = i := by
  rw [← Int64.toBitVec_inj]
  exact (BitVec.ofNat_toNat _ _).trans (BitVec.setWidth_eq _)

/-- Whether a literal is read is a matter of its size, and it is read as the integer with
its bits. In particular the bits of a word are read back as the word, however they are
printed. -/
theorem integers_are_read_at_their_value :
    (∀ (n : Numeral) (isLong : Bool) (text : String), n.IsWritten isLong text.toList →
      if n.value ≤ n.base.greatest isLong
        then ∃ literal, integer? text = some literal ∧
          HasValue isLong (twosComplement isLong n.value) literal
        else integer? text = none) ∧
    (∀ (base : Base) (i : Int32), (base = .decimal → 0 ≤ i) →
      integer? (String.ofList (base.print i.toUInt32.toNat)) = some (.int i)) ∧
    ∀ (base : Base) (i : Int64), (base = .decimal → 0 ≤ i) →
      integer? (String.ofList (base.print i.toUInt64.toNat ++ ['L'])) = some (.long i) := by
  refine ⟨fun n isLong text h => ?_, fun base i hnonneg => ?_, fun base i hnonneg => ?_⟩
  · rw [h.integer?_eq]
    split_ifs with hle
    · exact ⟨_, rfl, hasValue_ofBits (Nat.lt_of_le_of_lt hle (Base.greatest_lt isLong n.base))⟩
    · rfl
  · obtain ⟨n, rfl, hvalue, hint, -⟩ := base.exists_numeral i.toUInt32.toNat
    have hlt : n.value < 2 * half false := hvalue ▸ i.toUInt32.toNat_lt
    rw [hint.read hlt fun hdecimal => ?_, hvalue]
    · exact congrArg (some <| Literal.int ·) (ofNat_toUInt32 i)
    · rw [hvalue]
      exact toNat_lt_of_nonneg (Int32.le_iff_toInt_le.mp (hnonneg hdecimal))
  · obtain ⟨n, rfl, hvalue, -, hlong⟩ := base.exists_numeral i.toUInt64.toNat
    have hlt : n.value < 2 * half true := hvalue ▸ i.toUInt64.toNat_lt
    rw [hlong.read hlt fun hdecimal => ?_, hvalue]
    · exact congrArg (some <| Literal.long ·) (ofNat_toUInt64 i)
    · rw [hvalue]
      exact toNat_lt_of_nonneg (Int64.le_iff_toInt_le.mp (hnonneg hdecimal))

/-- A hexadecimal `long` in both cases and with underscores, the least `int` and a decimal
`long`. -/
theorem integers_of_three_kinds :
    (∃ literal, integer? "0Xf__FL" = some literal ∧ HasValue true 255 literal) ∧
    integer? "0b10000000000000000000000000000000" = some (.int (-2147483648)) ∧
    integer? "86400L" = some (.long 86400) := by
  have hpair : (⟨.hexadecimal, [⟨'f', 15, by decide, .inl rfl⟩, ⟨'F', 15, by decide, .inr rfl⟩],
      List.cons_ne_nil _ _, nofun⟩ : Numeral).IsWritten true "0Xf__FL".toList := by
    change Numeral.IsWritten _ true (['0', 'X'] ++ ['f', '_', '_', 'F'] ++ ['L'])
    exact .long (.hexadecimal (.inr rfl)) (.more _ 2 (.last _)) (.inr rfl)
  have hdecimal : (0 : Int64) ≤ 86400 := by decide
  exact ⟨integers_are_read_at_their_value.1 _ _ _ hpair,
    integers_are_read_at_their_value.2.1 .binary (-2147483648) nofun,
    integers_are_read_at_their_value.2.2 .decimal 86400 fun _ => hdecimal⟩

end LintEngine.Java
