import LintEngine.Java.Literals
import LintEngine.Proofs.Text.Digits
import Mathlib.Data.List.Basic

/-!
String literals. The content of a literal is a list of pieces: characters, backslashes with
a character behind them, and Unicode escapes. The language replaces Unicode escapes first,
wherever they stand, and looks for escape sequences in what this gives, so `Denotes` is a
relation on character codes and knows nothing of the pieces.

Reading takes one piece after the other. `Kept` says where this is the same: where no escape
sequence is octal but a zero alone, no Unicode escape is half of a surrogate pair, and none
is a backslash, unless a backslash behind it makes up for that.
-/

namespace LintEngine.Java

open Text (Digit numberOf)

/-! ### Pieces -/

inductive Piece where
  | char (c : Char) (h : c ≠ '\\')
  /-- A backslash and the character behind it. -/
  | escape (c : Char) (h : c ≠ 'u')
  /-- A backslash, one `u` and more of them, and four digits. -/
  | unicode (more : Nat) (a b c d : Digit 16)

namespace Piece

def text : Piece → List Char
  | char c _ => [c]
  | escape c _ => ['\\', c]
  | unicode more a b c d =>
    '\\' :: 'u' :: List.replicate more 'u' ++ [a.char, b.char, c.char, d.char]

/-- The codes of the characters of a piece, after Unicode escapes are replaced. -/
def codes : Piece → List Nat
  | char c _ => [c.toNat]
  | escape c _ => ['\\'.toNat, c.toNat]
  | unicode _ a b c d => [numberOf [a, b, c, d]]

def read : Piece → List Char
  | char c _ => [c]
  | escape c _ => [escaped c]
  | unicode _ a b c d => (Text.charOf? (numberOf [a, b, c, d])).toList

end Piece

/-- The codes of the content of a literal, in which escape sequences are looked for. -/
def codesOf (ps : List Piece) : List Nat := ps.flatMap Piece.codes

def quoted (ps : List Piece) : String :=
  String.ofList ('"' :: ps.flatMap Piece.text ++ ['"'])

/-! ### The string of a literal -/

def IsSurrogate (u : Nat) : Prop := 0xD800 ≤ u ∧ u ≤ 0xDFFF
deriving Decidable

def utf16 (n : Nat) : List Nat :=
  if n < 0x10000 then [n]
  else [0xD800 + (n - 0x10000) / 0x400, 0xDC00 + (n - 0x10000) % 0x400]

def IsOctal (u : Nat) : Prop := '0'.toNat ≤ u ∧ u ≤ '7'.toNat
deriving Decidable

def StartsOctal (us : List Nat) : Prop := ∃ u ∈ us.head?, IsOctal u
deriving Decidable

def octalValue (ds : List Nat) : Nat := ds.foldl (fun n d => 8 * n + (d - '0'.toNat)) 0

def simpleEscapes : List (Char × Char) :=
  [('b', '\x08'), ('s', ' '), ('t', '\t'), ('n', '\n'), ('f', '\x0c'), ('r', '\r'), ('"', '"'),
    ('\'', '\''), ('\\', '\\')]

/-- What an escape sequence stands for, and what is left behind it. An octal one has as many
digits as there are, up to three, and three only if the first is at most `3`. -/
inductive Escapes : (codes : List Nat) → (value : Nat) → (rest : List Nat) → Prop
  | simple {c v : Char} {rest : List Nat} (h : (c, v) ∈ simpleEscapes) :
      Escapes (c.toNat :: rest) v.toNat rest
  | one {d : Nat} {rest : List Nat} (hd : IsOctal d) (hrest : ¬ StartsOctal rest) :
      Escapes (d :: rest) (octalValue [d]) rest
  | two {d e : Nat} {rest : List Nat} (hd : IsOctal d) (he : IsOctal e)
      (hrest : '3'.toNat < d ∨ ¬ StartsOctal rest) :
      Escapes (d :: e :: rest) (octalValue [d, e]) rest
  | three {d e f : Nat} {rest : List Nat} (hd : IsOctal d) (he : IsOctal e) (hf : IsOctal f)
      (hle : d ≤ '3'.toNat) :
      Escapes (d :: e :: f :: rest) (octalValue [d, e, f]) rest

/-- The string, in UTF-16, that the content of a literal denotes. -/
inductive Denotes : (codes : List Nat) → (units : List Nat) → Prop
  | nil : Denotes [] []
  | char {u : Nat} {us vs : List Nat} (hu : u ∉ ['\\', '"', '\n', '\r'].map Char.toNat)
      (h : Denotes us vs) : Denotes (u :: us) (utf16 u ++ vs)
  | escape {n : Nat} {us rest vs : List Nat} (hescape : Escapes us n rest)
      (h : Denotes rest vs) : Denotes ('\\'.toNat :: us) (n :: vs)

def unitsOf (s : String) : List Nat := (s.toList.map Char.toNat).flatMap utf16

/-! ### What is kept -/

/-- Whether pieces are read as what they denote. While a backslash is pending that a Unicode
escape stands for, it has been read, but takes part in an escape sequence. -/
def Kept : (pending : Bool) → List Piece → Prop
  | pending, [] => pending = false
  | false, .char _ _ :: ps => Kept false ps
  | false, .escape c _ :: ps =>
    (IsOctal c.toNat → c = '0' ∧ ¬ StartsOctal (codesOf ps)) ∧ Kept false ps
  | false, .unicode _ a b c d :: ps =>
    ¬ IsSurrogate (numberOf [a, b, c, d]) ∧ Kept (numberOf [a, b, c, d] == '\\'.toNat) ps
  | true, .escape c _ :: ps => escaped c = c ∧ Kept (c == '\\') ps
  | true, .char _ _ :: _ => False
  | true, .unicode .. :: _ => False

/-! ### Reading -/

theorem unescape_text (p : Piece) (cs : List Char) :
    unescape .outside (p.text ++ cs) = p.read ++ unescape .outside cs := by
  cases p with
  | char c h => simp [Piece.text, Piece.read, unescape, h]
  | escape c h => simp [Piece.text, Piece.read, unescape, h]
  | unicode more a b c d =>
      have hmore : ∀ cs, unescape (.unicode []) (List.replicate more 'u' ++ cs) =
          unescape (.unicode []) cs := by
        intro cs
        induction more with
        | zero => rfl
        | succ more ih => exact ih
      have hu : ∀ d : Digit 16, d.char ≠ 'u' := fun d => d.char_ne (Nat.le_refl _) (by decide)
      have hnumber : Text.unsigned? 16 ([a, b, c, d].map (·.char)) = some (numberOf [a, b, c, d]) :=
        Text.unsigned?_digits (Nat.le_refl _) (List.cons_ne_nil _ _)
      simp only [List.map_cons, List.map_nil] at hnumber
      simp [Piece.text, Piece.read, unescape, hmore, hu, unicodeChar, hnumber]

theorem unescape_flatMap_text (ps : List Piece) :
    unescape .outside (ps.flatMap Piece.text) = ps.flatMap Piece.read := by
  induction ps with
  | nil => rfl
  | cons p ps ih => rw [List.flatMap_cons, List.flatMap_cons, unescape_text, ih]

/-- A literal is no text block unless its content begins with a quote. -/
theorem textBlock?_eq_none {cs : List Char} (h : cs.head? ≠ some '"') :
    textBlock? ('"' :: cs ++ ['"']) = none := by
  have hnone : ['"', '"', '"'].isPrefixOf? ('"' :: cs ++ ['"']) = none := by
    refine Option.eq_none_iff_forall_ne_some.mpr fun rest hrest => ?_
    have happend := List.isPrefixOf?_eq_some_iff_append_eq.mp hrest
    cases cs with
    | nil => simp at happend
    | cons c cs =>
        obtain ⟨hc, -⟩ := List.cons.inj (List.cons.inj happend).2
        exact h (congrArg some hc.symm)
  rw [textBlock?, hnone]
  rfl

theorem quoted?_eq (cs : List Char) : quoted? ('"' :: cs ++ ['"']) = some cs := by
  have hrest : ['"'].isPrefixOf? ('"' :: cs ++ ['"']) = some (cs ++ ['"']) :=
    List.isPrefixOf?_eq_some_iff_append_eq.mpr rfl
  rw [quoted?, hrest]
  exact List.isSuffixOf?_eq_some_iff_append_eq.mpr rfl

theorem Denotes.head_ne {ps : List Piece} {units : List Nat}
    (h : Denotes (codesOf ps) units) : (ps.flatMap Piece.text).head? ≠ some '"' := by
  cases ps with
  | nil => simp
  | cons p ps =>
      cases p with
      | char c hc =>
          rintro ⟨⟩
          cases h with
          | char hu => exact hu (by decide)
      | escape c hc => simp [Piece.text]
      | unicode more a b c d => simp [Piece.text]

theorem string_quoted {ps : List Piece} {units : List Nat}
    (h : Denotes (codesOf ps) units) :
    string (quoted ps) = String.ofList (ps.flatMap Piece.read) := by
  rw [string, quoted, String.toList_ofList, textBlock?_eq_none h.head_ne, quoted?_eq,
    ← unescape_flatMap_text]
  rfl

def readUnits (ps : List Piece) : List Nat :=
  ((ps.flatMap Piece.read).map Char.toNat).flatMap utf16

theorem unitsOf_string_quoted {ps : List Piece} {units : List Nat}
    (h : Denotes (codesOf ps) units) : unitsOf (string (quoted ps)) = readUnits ps := by
  rw [string_quoted h, unitsOf, String.toList_ofList]
  rfl

/-! ### Lists in UTF-16 -/

/-- Half of a pair counts less than no unit, any other unit as one. So nothing that reading
leaves out or takes apart can be made up for by what it leaves out later. -/
def weight (us : List Nat) : Int := (us.map fun u => if IsSurrogate u then -1 else 1).sum

theorem weight_append (us vs : List Nat) : weight (us ++ vs) = weight us + weight vs := by
  rw [weight, List.map_append, List.sum_append]
  rfl

structure Compares (denoted read : List Nat) (same : Prop) : Prop where
  weight_le : weight denoted ≤ weight read
  eq_iff : denoted = read ↔ same

namespace Compares

variable {vs cs xs ys : List Nat} {same : Prop}

theorem weight_append_le (h : Compares vs cs same) (hle : weight xs ≤ weight ys) :
    weight (xs ++ vs) ≤ weight (ys ++ cs) := by
  rw [weight_append, weight_append]
  exact Int.add_le_add hle h.weight_le

theorem append (h : Compares vs cs same) (xs : List Nat) :
    Compares (xs ++ vs) (xs ++ cs) same where
  weight_le := h.weight_append_le (Int.le_refl _)
  eq_iff := by rw [List.append_cancel_left_eq, h.eq_iff]

theorem of_lt (h : Compares vs cs same) (hlt : weight xs < weight ys) :
    Compares (xs ++ vs) (ys ++ cs) False := by
  have hlt' : weight (xs ++ vs) < weight (ys ++ cs) := by
    rw [weight_append, weight_append]
    exact Int.add_lt_add_of_lt_of_le hlt h.weight_le
  exact ⟨Int.le_of_lt hlt', iff_false_intro fun heq => Int.lt_irrefl _ (heq ▸ hlt')⟩

theorem of_ne (h : Compares vs cs same) (hle : weight xs ≤ weight ys)
    (hlength : xs.length = ys.length) (hne : xs ≠ ys) : Compares (xs ++ vs) (ys ++ cs) False where
  weight_le := h.weight_append_le hle
  eq_iff := iff_false_intro fun heq => hne (List.append_inj_left heq hlength)

end Compares

theorem not_isSurrogate {u : Nat} (h : u < 0xD800) : ¬ IsSurrogate u :=
  fun hu => Nat.not_le_of_lt h hu.1

theorem weight_singleton {u : Nat} (h : u < 0xD800) : weight [u] = 1 := by
  simp [weight, not_isSurrogate h]

theorem utf16_of_lt {u : Nat} (h : u < 0xD800) : utf16 u = [u] :=
  if_pos (Nat.lt_trans h (by decide))

/-! ### Pieces and codes -/

theorem numberOf_four_lt (a b c d : Digit 16) : numberOf [a, b, c, d] < 0x10000 := by
  have ha := a.value_lt
  have hb := b.value_lt
  have hc := c.value_lt
  have hd := d.value_lt
  simp [numberOf, Nat.ofDigits]
  omega

/-- Every code of a Unicode escape is read but half of a surrogate pair. -/
theorem readUnits_unicode (more : Nat) (a b c d : Digit 16) (ps : List Piece) :
    readUnits (.unicode more a b c d :: ps) =
      (if IsSurrogate (numberOf [a, b, c, d]) then [] else [numberOf [a, b, c, d]]) ++
        readUnits ps := by
  have hlt := numberOf_four_lt a b c d
  simp only [readUnits, List.flatMap_cons, Piece.read, List.map_append, List.flatMap_append]
  congr 1
  split_ifs with hsurrogate
  · rw [Text.charOf?, if_neg (by simp [IsSurrogate] at hsurrogate ⊢; omega)]
    rfl
  · have hvalid : numberOf [a, b, c, d] < 0xD800 ∨ 0xDFFF < numberOf [a, b, c, d] := by
      simp only [IsSurrogate] at hsurrogate
      omega
    have hcode : (Char.ofNat (numberOf [a, b, c, d])).toNat = numberOf [a, b, c, d] := by
      rw [Char.ofNat, dif_pos (by unfold Nat.isValidChar; omega)]
      rfl
    rw [Text.charOf?, if_pos (by simp; omega)]
    simp [hcode, utf16, hlt]

theorem readUnits_char {c : Char} {h : c ≠ '\\'} (ps : List Piece) :
    readUnits (.char c h :: ps) = utf16 c.toNat ++ readUnits ps := rfl

theorem readUnits_escape {c : Char} {h : c ≠ 'u'} (ps : List Piece) :
    readUnits (.escape c h :: ps) = utf16 (escaped c).toNat ++ readUnits ps := rfl

theorem IsOctal.lt {u : Nat} (h : IsOctal u) : u < 0xD800 := Nat.lt_of_le_of_lt h.2 (by decide)

/-- An octal digit that comes next is a piece of its own, and read. -/
theorem IsOctal.exists_piece {ps : List Piece} {u : Nat} {us : List Nat} (hu : IsOctal u)
    (h : codesOf ps = u :: us) :
    ∃ p rest, ps = p :: rest ∧ codesOf rest = us ∧ readUnits ps = u :: readUnits rest := by
  cases ps with
  | nil => cases h
  | cons p ps =>
      cases p with
      | char c hc =>
          cases h
          exact ⟨_, _, rfl, rfl, by rw [readUnits_char, utf16_of_lt hu.lt]; rfl⟩
      | escape c hc =>
          cases h
          exact absurd hu (by decide)
      | unicode more a b c d =>
          cases h
          exact ⟨_, _, rfl, rfl, by rw [readUnits_unicode, if_neg (not_isSurrogate hu.lt)]; rfl⟩

/-- An escape sequence is one code long, or made of octal digits that are pieces of their
own, and read too. -/
theorem Escapes.codesOf_rest {u n : Nat} {rest : List Nat} {ps : List Piece}
    (h : Escapes (u :: codesOf ps) n rest) :
    (rest = codesOf ps ∧
      ((∃ p ∈ simpleEscapes, u = p.1.toNat ∧ n = p.2.toNat) ∨
        IsOctal u ∧ ¬ StartsOctal (codesOf ps) ∧ n = octalValue [u])) ∨
    (IsOctal u ∧ StartsOctal (codesOf ps) ∧
      ∃ ps', ps'.length < ps.length ∧ rest = codesOf ps' ∧
        ∃ ds, readUnits ps = ds ++ readUnits ps' ∧ 0 < weight ds) := by
  generalize hcodes : codesOf ps = us at h
  cases h with
  | simple h => exact .inl ⟨rfl, .inl ⟨_, h, rfl, rfl⟩⟩
  | one hd hrest => exact .inl ⟨rfl, .inr ⟨hd, hrest, rfl⟩⟩
  | @two _ e _ hd he hrest =>
      obtain ⟨p, ps, rfl, hrest, hread⟩ := he.exists_piece hcodes
      refine .inr ⟨hd, ⟨e, rfl, he⟩, ps, Nat.lt_succ_self _, hrest.symm, [e], hread, ?_⟩
      rw [weight_singleton he.lt]
      decide
  | @three _ e f _ hd he hf hle =>
      obtain ⟨p, ps, rfl, hrest, hread⟩ := he.exists_piece hcodes
      obtain ⟨q, ps, rfl, hrest', hread'⟩ := hf.exists_piece hrest
      refine .inr ⟨hd, ⟨e, rfl, he⟩, ps, Nat.lt_add_of_pos_right Nat.two_pos, hrest'.symm,
        [e] ++ [f], ?_, ?_⟩
      · rw [hread, hread']
        rfl
      · rw [weight_append, weight_singleton he.lt, weight_singleton hf.lt]
        decide

theorem escaped_of_mem {p : Char × Char} (h : p ∈ simpleEscapes) :
    escaped p.1 = p.2 ∧ ¬ IsOctal p.1.toNat ∧ p.1.toNat < 0xD800 ∧ p.2.toNat < 0xD800 :=
  (by decide : ∀ p ∈ simpleEscapes,
    escaped p.1 = p.2 ∧ ¬ IsOctal p.1.toNat ∧ p.1.toNat < 0xD800 ∧ p.2.toNat < 0xD800) p h

theorem escaped_of_isOctal {c : Char} (hc : IsOctal c.toNat) (hne : c ≠ '0') : escaped c = c := by
  unfold escaped
  split <;> first | rfl | exact absurd hc (by decide) | exact absurd rfl hne

theorem lt_of_escaped_ne {c : Char} (h : escaped c ≠ c) :
    c.toNat < 0xD800 ∧ (escaped c).toNat < 0xD800 := by
  revert h
  unfold escaped
  split <;> first | decide | exact absurd rfl

theorem Escapes.lt {u n : Nat} {us rest : List Nat} (h : Escapes (u :: us) n rest) :
    u < 0xD800 ∧ n < 0xD800 := by
  cases h with
  | simple h =>
      obtain ⟨-, -, hcode, hvalue⟩ := escaped_of_mem h
      exact ⟨hcode, hvalue⟩
  | one hd => exact ⟨hd.lt, by simp [octalValue, IsOctal] at hd ⊢; omega⟩
  | two hd he => exact ⟨hd.lt, by simp [octalValue, IsOctal] at hd he ⊢; omega⟩
  | three hd he hf => exact ⟨hd.lt, by simp [octalValue, IsOctal] at hd he hf ⊢; omega⟩

theorem Escapes.of_backslash {n : Nat} {us rest : List Nat}
    (h : Escapes ('\\'.toNat :: us) n rest) : n = '\\'.toNat ∧ rest = us := by
  generalize hcode : '\\'.toNat = u at h
  cases h with
  | simple h =>
      have hself : ∀ p ∈ simpleEscapes, p.1 = '\\' → p.2 = '\\' := by decide
      have hvalue := hself _ h (Char.toNat_inj.mp hcode).symm
      exact ⟨congrArg Char.toNat hvalue |>.trans hcode, rfl⟩
  | one hd => exact absurd hd (hcode ▸ by decide)
  | two hd => exact absurd hd (hcode ▸ by decide)
  | three hd => exact absurd hd (hcode ▸ by decide)

theorem Denotes.of_backslash {us units : List Nat} (h : Denotes ('\\'.toNat :: us) units) :
    ∃ n rest vs, units = [n] ++ vs ∧ Escapes us n rest ∧ Denotes rest vs := by
  generalize hcode : '\\'.toNat = u at h
  cases h with
  | char hu => exact absurd (hcode ▸ by decide) hu
  | escape hescape h => exact ⟨_, _, _, rfl, hescape, h⟩

theorem Denotes.of_ne {u : Nat} {us units : List Nat} (h : Denotes (u :: us) units)
    (hne : u ≠ '\\'.toNat) : ∃ vs, units = utf16 u ++ vs ∧ Denotes us vs := by
  cases h with
  | char hu h => exact ⟨_, rfl, h⟩
  | escape => exact absurd rfl hne

/-! ### The comparison -/

/-- A backslash that has been read, but takes part in an escape sequence. -/
def held : (pending : Bool) → List Nat
  | true => ['\\'.toNat]
  | false => []

section

variable {ps : List Piece} {u n : Nat} {rest vs : List Nat}

-- what the induction over the pieces gives for those behind an escape sequence
variable (ih : ∀ pending ps' vs, ps'.length ≤ ps.length →
  Denotes (held pending ++ codesOf ps') vs →
    Compares vs (held pending ++ readUnits ps') (Kept pending ps'))
include ih

/-- A longer escape sequence takes digits from the pieces behind it, which are read too. -/
theorem Escapes.compares (hescape : Escapes (u :: codesOf ps) n rest) (h : Denotes rest vs) :
    (Compares vs (readUnits ps) (Kept false ps) ∧
      ((∃ p ∈ simpleEscapes, u = p.1.toNat ∧ n = p.2.toNat) ∨
        IsOctal u ∧ ¬ StartsOctal (codesOf ps) ∧ n = octalValue [u])) ∨
    (IsOctal u ∧ StartsOctal (codesOf ps) ∧
      ∀ us, 0 < weight us → Compares ([n] ++ vs) (us ++ readUnits ps) False) := by
  have hweight := weight_singleton hescape.lt.2
  rcases hescape.codesOf_rest with ⟨rfl, hshort⟩ | ⟨hu, hstarts, ps', hlt, rfl, ds, hread, hds⟩
  · exact .inl ⟨ih false _ _ (Nat.le_refl _) h, hshort⟩
  · refine .inr ⟨hu, hstarts, fun us hus => ?_⟩
    rw [hread, ← List.append_assoc]
    refine (ih false _ _ (Nat.le_of_lt hlt) h).of_lt ?_
    rw [weight_append]
    omega

/-- With a backslash that is pending, it and the code behind it are read for one unit. -/
theorem Escapes.compares_pending (hescape : Escapes (u :: codesOf ps) n rest)
    (h : Denotes rest vs) :
    Compares ([n] ++ vs) (['\\'.toNat] ++ ([u] ++ readUnits ps)) False := by
  obtain ⟨hu, hn⟩ := hescape.lt
  rw [← List.append_assoc]
  have hweight : weight (['\\'.toNat] ++ [u]) = 2 := by
    rw [weight_append, weight_singleton hu]
    decide
  rcases hescape.compares ih h with ⟨hrest, -⟩ | ⟨-, -, hrest⟩
  · exact hrest.of_lt (by rw [hweight, weight_singleton hn]; decide)
  · exact hrest _ (by rw [hweight]; decide)

theorem Escapes.compares_escape {c : Char} {hc : c ≠ 'u'}
    (hescape : Escapes (c.toNat :: codesOf ps) n rest) (h : Denotes rest vs) :
    Compares ([n] ++ vs) (readUnits (.escape c hc :: ps)) (Kept false (.escape c hc :: ps)) := by
  rw [readUnits_escape]
  rcases hescape.compares ih h with ⟨hrest, ⟨p, hp, hcode, rfl⟩ | ⟨hoctal, hstarts, rfl⟩⟩ |
    ⟨hoctal, hstarts, hrest⟩
  · obtain ⟨hvalue, hnot, -, hlt⟩ := escaped_of_mem hp
    obtain rfl : c = p.1 := Char.toNat_inj.mp hcode
    rw [hvalue, utf16_of_lt hlt]
    simpa [Kept, hnot] using hrest.append [p.2.toNat]
  · by_cases hzero : c = '0'
    · subst hzero
      have hkept : Kept false (.escape '0' hc :: ps) ↔ Kept false ps := by simp [Kept, hstarts]
      rw [hkept]
      exact hrest.append [0]
    · have hvalue : octalValue [c.toNat] ≠ c.toNat := by
        simp [octalValue, IsOctal] at hoctal ⊢
        omega
      rw [escaped_of_isOctal hoctal hzero, utf16_of_lt hoctal.lt]
      simp only [Kept, hoctal, hzero, forall_const, false_and]
      refine hrest.of_ne ?_ rfl (by simpa using hvalue)
      rw [weight_singleton hescape.lt.1, weight_singleton hescape.lt.2]
  · simp only [Kept, hoctal, hstarts, not_true_eq_false, and_false, forall_const, false_and]
    refine hrest _ ?_
    by_cases hzero : c = '0'
    · subst hzero
      decide
    · rw [escaped_of_isOctal hoctal hzero, utf16_of_lt hoctal.lt,
        weight_singleton hoctal.lt]
      decide

/-- No backslash is pending: a piece stands for itself or begins an escape sequence. -/
theorem Denotes.compares_cons {p : Piece} {units : List Nat}
    (h : Denotes (codesOf (p :: ps)) units) :
    Compares units (readUnits (p :: ps)) (Kept false (p :: ps)) := by
  cases p with
  | char c hc =>
      obtain ⟨vs, rfl, hrest⟩ := h.of_ne (Char.toNat_inj.not.mpr hc)
      exact (ih false _ _ (Nat.le_refl _) hrest).append _
  | escape c hc =>
      obtain ⟨n, rest, vs, rfl, hescape, hrest⟩ := h.of_backslash
      exact hescape.compares_escape ih hrest
  | unicode more a b c d =>
      have hlt := numberOf_four_lt a b c d
      rw [readUnits_unicode]
      change Denotes (numberOf [a, b, c, d] :: codesOf ps) units at h
      simp only [Kept]
      generalize numberOf [a, b, c, d] = n at h hlt
      by_cases hbackslash : n = '\\'.toNat
      · subst hbackslash
        simpa [not_isSurrogate, held] using ih true _ _ (Nat.le_refl _) h
      obtain ⟨vs, rfl, hrest⟩ := h.of_ne hbackslash
      have hcompares := ih false _ _ (Nat.le_refl _) hrest
      rw [beq_false_of_ne hbackslash, utf16, if_pos hlt]
      by_cases hsurrogate : IsSurrogate n
      · simp only [hsurrogate, if_true, not_true_eq_false, false_and]
        exact hcompares.of_lt (by simp [weight, hsurrogate])
      · simp only [hsurrogate, if_false, not_false_eq_true, true_and]
        exact hcompares.append _

/-- A backslash is pending: it makes an escape sequence of what comes. -/
theorem Denotes.compares_cons_pending {p : Piece} {units : List Nat}
    (h : Denotes ('\\'.toNat :: codesOf (p :: ps)) units) :
    Compares units (['\\'.toNat] ++ readUnits (p :: ps)) (Kept true (p :: ps)) := by
  obtain ⟨n, rest, vs, rfl, hescape, hrest⟩ := h.of_backslash
  cases p with
  | char c hc =>
      rw [readUnits_char, utf16_of_lt hescape.lt.1]
      exact hescape.compares_pending ih hrest
  | unicode more a b c d =>
      rw [readUnits_unicode, if_neg (not_isSurrogate hescape.lt.1)]
      exact hescape.compares_pending ih hrest
  | escape c hc =>
      -- the two backslashes are one escape sequence, and what is behind them stands for itself
      obtain ⟨rfl, rfl⟩ := hescape.of_backslash
      refine Compares.append ?_ _
      rw [readUnits_escape]
      simp only [Kept]
      by_cases hbackslash : c = '\\'
      · subst hbackslash
        have hself : escaped '\\' = '\\' := rfl
        rw [hself, eq_self, true_and]
        exact ih true _ _ (Nat.le_refl _) hrest
      obtain ⟨vs, rfl, hrest'⟩ := hrest.of_ne (Char.toNat_inj.not.mpr hbackslash)
      have hcompares := ih false _ _ (Nat.le_refl _) hrest'
      rw [beq_false_of_ne hbackslash]
      by_cases hself : escaped c = c
      · rw [hself, eq_self, true_and]
        exact hcompares.append _
      · obtain ⟨hlt, hlt'⟩ := lt_of_escaped_ne hself
        simp only [hself, false_and]
        rw [utf16_of_lt hlt, utf16_of_lt hlt']
        refine hcompares.of_ne ?_ rfl (by simpa [Char.toNat_inj] using Ne.symm hself)
        rw [weight_singleton hlt, weight_singleton hlt']

end

/-- What is read compares with what is denoted, and is the same exactly if the pieces are
kept. By induction on the pieces, since an escape sequence may reach into several. -/
theorem Denotes.compares {pending : Bool} {ps : List Piece} {units : List Nat}
    (h : Denotes (held pending ++ codesOf ps) units) :
    Compares units (held pending ++ readUnits ps) (Kept pending ps) := by
  induction hlength : ps.length using Nat.strongRecOn generalizing pending ps units with
  | _ k ih =>
  subst hlength
  cases ps with
  | nil =>
      cases pending with
      | false =>
          cases h
          exact ⟨Int.le_refl _, by simp [held, readUnits, Kept]⟩
      | true =>
          obtain ⟨_, _, _, -, hescape, -⟩ := h.of_backslash
          cases hescape
  | cons p ps =>
      have ih' : ∀ pending ps' vs, ps'.length ≤ ps.length →
          Denotes (held pending ++ codesOf ps') vs →
            Compares vs (held pending ++ readUnits ps') (Kept pending ps') :=
        fun _ _ _ hle h => ih _ (Nat.lt_succ_of_le hle) h rfl
      cases pending with
      | false => exact h.compares_cons ih'
      | true => exact h.compares_cons_pending ih'

/-- No code in UTF-16 is the beginning of another one. -/
theorem utf16_append_inj {c d : Char} {us vs : List Nat}
    (h : utf16 c.toNat ++ us = utf16 d.toNat ++ vs) : c = d ∧ us = vs := by
  have hc : c.toNat < 0xD800 ∨ 0xDFFF < c.toNat ∧ c.toNat < 0x110000 := c.valid
  have hd : d.toNat < 0xD800 ∨ 0xDFFF < d.toNat ∧ d.toNat < 0x110000 := d.valid
  rw [← Char.toNat_inj]
  generalize c.toNat = m at h hc
  generalize d.toNat = n at h hd
  simp only [utf16] at h
  split_ifs at h <;> simp only [List.cons_append, List.nil_append, List.cons.injEq] at h
  · exact h
  · omega
  · omega
  · exact ⟨by omega, h.2.2⟩

theorem unitsOf_injective {s t : String} (h : unitsOf s = unitsOf t) : s = t := by
  rw [← String.toList_inj]
  simp only [unitsOf, List.flatMap_map] at h
  generalize s.toList = cs at h
  generalize t.toList = ds at h
  have hne : ∀ n, utf16 n ≠ [] := fun n => by rw [utf16]; split_ifs <;> simp
  induction cs generalizing ds with
  | nil =>
      cases ds with
      | nil => rfl
      | cons d ds => exact absurd h.symm (by simp [hne])
  | cons c cs ih =>
      cases ds with
      | nil => exact absurd h (by simp [hne])
      | cons d ds =>
          obtain ⟨rfl, hrest⟩ := utf16_append_inj h
          rw [ih ds hrest]

/-- A literal is read as the string it denotes exactly if its pieces are kept. -/
theorem string_eq_denoted_iff_kept (ps : List Piece) (units : List Nat)
    (h : Denotes (codesOf ps) units) :
    (unitsOf (string (quoted ps)) = units ↔ Kept false ps) ∧
    ∀ s, unitsOf s = units → (string (quoted ps) = s ↔ Kept false ps) := by
  have hkept : unitsOf (string (quoted ps)) = units ↔ Kept false ps := by
    have hcompares : Compares units (readUnits ps) (Kept false ps) :=
      Denotes.compares (show Denotes (held false ++ codesOf ps) units from h)
    rw [unitsOf_string_quoted h, eq_comm, hcompares.eq_iff]
  refine ⟨hkept, fun s hs => ?_⟩
  rw [← hkept, ← hs]
  exact ⟨fun heq => heq ▸ rfl, unitsOf_injective⟩

def keptContent : List Piece :=
  [.unicode 1 ⟨'0', 0, by decide, .inl rfl⟩ ⟨'0', 0, by decide, .inl rfl⟩
      ⟨'6', 6, by decide, .inl rfl⟩ ⟨'B', 11, by decide, .inr rfl⟩,
    .escape 'n' (by decide), .escape '0' (by decide), .char '8' (by decide)]

theorem keptContent_read :
    quoted keptContent = "\"\\uu006B\\n\\08\"" ∧ string (quoted keptContent) = "k\n\x008" := by
  have hdenotes : Denotes (codesOf keptContent) (unitsOf "k\n\x008") :=
    .char (by decide) <| .escape (@Escapes.simple 'n' '\n' _ (by decide)) <|
      .escape (.one (by decide) (by decide)) <| .char (by decide) .nil
  have hkept : Kept false keptContent :=
    ⟨by decide, fun h => absurd h (by decide), fun _ => ⟨rfl, by decide⟩, rfl⟩
  exact ⟨rfl, ((string_eq_denoted_iff_kept _ _ hdenotes).2 _ rfl).mpr hkept⟩

def octalContent : List Piece :=
  [.escape '1' (by decide), .char '0' (by decide), .char '1' (by decide)]

theorem octalContent_misread :
    quoted octalContent = "\"\\101\"" ∧ Denotes (codesOf octalContent) (unitsOf "A") ∧
      string (quoted octalContent) = "101" := by
  refine ⟨rfl, ?_, rfl⟩
  exact .escape (.three (by decide) (by decide) (by decide) (by decide)) .nil

end LintEngine.Java
