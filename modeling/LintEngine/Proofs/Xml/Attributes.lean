import LintEngine.Proofs.Bytes
import LintEngine.Proofs.Text
import LintEngine.Proofs.Xml.Balance

/-!
Attributes and their places in a tag.

An attribute is written as its key, an equals sign and its value in quotes. The
place of an attribute is known by what stands before it. The node of an attribute
is not given its place; it is looked for again, as the first text in the tag that
reads like the key with an equals sign. This finds the attribute just if its key
is followed by the sign at once, has no quote in it, and does not stand with an
equals sign in the tag before.
-/

namespace LintEngine.Xml

open Text (byteLength)

variable {a : RawAttribute} {text rest cs : List Char}

def isQuote (c : Char) : Bool := c == '"' || c == '\''

/-! ### Attributes as written -/

/-- The text of an attribute: its key, the equals sign and its value in quotes.
White space may stand on both sides of the sign. -/
structure RawAttribute.IsWritten (a : RawAttribute) (text : List Char) : Prop where
  key : ∃ c cs, a.key = c :: cs ∧ isSpace c = false ∧ ∀ d ∈ cs, d ≠ '=' ∧ isSpace d = false
  text : ∃ gap gap' quote, text = a.key ++ (gap ++ '=' :: (gap' ++ quote :: (a.value ++ [quote]))) ∧
    (∀ c ∈ gap, isSpace c = true) ∧ (∀ c ∈ gap', isSpace c = true) ∧
    isQuote quote = true ∧ quote ∉ a.value

theorem splitAtPiece_singleton {q : Char} {front : List Char} :
    splitAtPiece [q] cs = some (front, rest) ↔ cs = front ++ q :: rest ∧ q ∉ front := by
  induction cs generalizing front with
  | nil => simp [splitAtPiece]
  | cons c cs ih =>
      rw [splitAtPiece]
      by_cases hc : q = c
      · subst hc
        rw [show [q].isPrefixOf? (q :: cs) = some cs by simp [List.isPrefixOf?]]
        constructor
        · intro h
          cases h
          exact ⟨rfl, List.not_mem_nil⟩
        · rintro ⟨h, hfront⟩
          cases front with
          | nil =>
              cases h
              rfl
          | cons x front =>
              obtain ⟨rfl, -⟩ := List.cons.inj h
              exact (hfront List.mem_cons_self).elim
      · rw [show [q].isPrefixOf? (c :: cs) = none by simp [List.isPrefixOf?, hc]]
        simp only [Option.map_eq_some_iff, Prod.exists, Prod.mk.injEq]
        constructor
        · rintro ⟨front, rest, hsplit, rfl, rfl⟩
          obtain ⟨rfl, hfront⟩ := ih.mp hsplit
          exact ⟨rfl, by simp [hc, hfront]⟩
        · rintro ⟨h, hfront⟩
          cases front with
          | nil =>
              obtain ⟨rfl, -⟩ := List.cons.inj h
              exact (hc rfl).elim
          | cons x front =>
              obtain ⟨rfl, rfl⟩ := List.cons.inj h
              exact ⟨front, rest, ih.mpr ⟨rfl, mt (List.mem_cons_of_mem _) hfront⟩, rfl, rfl⟩

theorem attributeValue?_eq_some_iff {value : List Char} :
    attributeValue? cs = some (value, rest) ↔
      ∃ gap quote, cs = gap ++ quote :: (value ++ quote :: rest) ∧ (∀ c ∈ gap, isSpace c = true) ∧
        isQuote quote = true ∧ quote ∉ value := by
  have hspace : ∀ {q}, isQuote q = true → isSpace q = false := by
    intro q hq
    simp only [isQuote, Bool.or_eq_true, beq_iff_eq] at hq
    rcases hq with rfl | rfl <;> decide
  rw [attributeValue?]
  constructor
  · intro h
    have hgap := List.takeWhile_append_dropWhile (p := isSpace) (l := cs)
    have hblank : ∀ c ∈ cs.takeWhile isSpace, isSpace c = true := fun c => List.mem_takeWhile_imp
    split at h
    · rename_i hdrop
      obtain ⟨rfl, hvalue⟩ := splitAtPiece_singleton.mp h
      exact ⟨_, '"', by rw [← hdrop, hgap], hblank, by decide, hvalue⟩
    · rename_i hdrop
      obtain ⟨rfl, hvalue⟩ := splitAtPiece_singleton.mp h
      exact ⟨_, '\'', by rw [← hdrop, hgap], hblank, by decide, hvalue⟩
    · cases h
  · rintro ⟨gap, quote, rfl, hgap, hquote, hvalue⟩
    rw [Text.dropWhile_append_of_head hgap (by simp [hspace hquote])]
    simp only [isQuote, Bool.or_eq_true, beq_iff_eq] at hquote
    rcases hquote with rfl | rfl
    · exact splitAtPiece_singleton.mpr ⟨rfl, hvalue⟩
    · exact splitAtPiece_singleton.mpr ⟨rfl, hvalue⟩

theorem isKeyChar_iff {d : Char} :
    (d != '=' && !isSpace d) = true ↔ d ≠ '=' ∧ isSpace d = false := by
  simp

theorem takeWhile_key {key gap tail : List Char} (hkey : ∀ d ∈ key, d ≠ '=' ∧ isSpace d = false)
    (hgap : ∀ c ∈ gap, isSpace c = true) :
    (key ++ (gap ++ '=' :: tail)).takeWhile (fun d => d != '=' && !isSpace d) = key := by
  apply Text.takeWhile_append_of_head
  · exact fun d hd => isKeyChar_iff.mpr (hkey d hd)
  · intro d hd
    cases gap with
    | nil =>
        obtain rfl : '=' = d := by simpa using hd
        decide
    | cons x gap =>
        obtain rfl : x = d := by simpa using hd
        simp [hgap x List.mem_cons_self]

/-- What is read as an attribute is written as one. -/
theorem exists_isWritten_of_attribute? (h : attribute? cs = some (a, rest))
    (hhead : ∀ c ∈ cs.head?, isSpace c = false) : ∃ text, a.IsWritten text ∧ cs = text ++ rest := by
  cases cs with
  | nil => cases h
  | cons c cs =>
      rw [attribute?] at h
      split at h
      · rename_i rest' hequals
        obtain ⟨⟨value, rest⟩, hvalue, heq⟩ := Option.map_eq_some_iff.mp h
        cases heq
        obtain ⟨gap', quote, rfl, hgap', hquote, hnot⟩ := attributeValue?_eq_some_iff.mp hvalue
        let key := cs.takeWhile fun d => d != '=' && !isSpace d
        have hkey : ∀ d ∈ key, d ≠ '=' ∧ isSpace d = false := fun d hd =>
          isKeyChar_iff.mp (List.mem_takeWhile_imp (p := fun d => d != '=' && !isSpace d) hd)
        have hcs : cs = key ++ ((cs.drop key.length).takeWhile isSpace ++
            (cs.drop key.length).dropWhile isSpace) := by
          rw [List.takeWhile_append_dropWhile]
          exact (List.prefix_iff_eq_append.mp (List.takeWhile_prefix _)).symm
        refine ⟨c :: key ++ ((cs.drop key.length).takeWhile isSpace ++
          '=' :: (gap' ++ quote :: (value ++ [quote]))), ⟨⟨c, key, rfl, hhead c rfl, hkey⟩,
          _, gap', quote, rfl, fun c => List.mem_takeWhile_imp, hgap', hquote, hnot⟩, ?_⟩
        rw [hequals] at hcs
        rw [List.cons_append, List.cons_append]
        refine congrArg (c :: ·) (hcs.trans ?_)
        simp
      · cases h

namespace RawAttribute.IsWritten

theorem ne_nil (h : a.IsWritten text) : text ≠ [] := by
  obtain ⟨⟨c, cs, hkey, -⟩, gap, gap', quote, rfl, -⟩ := h
  simp [hkey]

theorem read (h : a.IsWritten text) (rest : List Char) :
    attribute? (text ++ rest) = some (a, rest) := by
  obtain ⟨key, value⟩ := a
  obtain ⟨⟨c, cs, rfl, -, hkey⟩, gap, gap', quote, rfl, hgap, hgap', hquote, hnot⟩ := h
  have hdrop : (gap ++ '=' :: (gap' ++ quote :: (value ++ quote :: rest))).dropWhile isSpace =
      '=' :: (gap' ++ quote :: (value ++ quote :: rest)) :=
    Text.dropWhile_append_of_head hgap (by simp; decide)
  have hvalue : attributeValue? (gap' ++ quote :: (value ++ quote :: rest)) = some (value, rest) :=
    attributeValue?_eq_some_iff.mpr ⟨gap', quote, rfl, hgap', hquote, hnot⟩
  simp only [List.cons_append, List.append_assoc, List.nil_append, attribute?,
    takeWhile_key hkey hgap, List.drop_left, hdrop, hvalue, Option.map_some]

theorem head (h : a.IsWritten text) (rest : List Char) :
    ∀ c ∈ (text ++ rest).head?, isSpace c = false := by
  obtain ⟨⟨c, cs, hkey, hc, -⟩, gap, gap', quote, rfl, -⟩ := h
  simpa [hkey] using hc

theorem getLast (h : a.IsWritten text) :
    ∀ c ∈ text.getLast?, isQuote c = true := by
  obtain ⟨-, gap, gap', quote, rfl, -, -, hquote, -⟩ := h
  simp [List.getLast?_append, List.getLast?_cons, hquote]

end RawAttribute.IsWritten

/-! ### Places -/

/-- An attribute in a text: what stands before its tag, what stands in the tag
before it, and its own text. -/
structure Place where
  before : List Char
  front : List Char
  raw : RawAttribute
  text : List Char

namespace Place

def start (p : Place) : Nat := byteLength (p.before ++ p.front)

def stop (p : Place) : Nat := byteLength (p.before ++ p.front ++ p.text)

end Place

/-- The attributes of a tag, in order. The tag begins after `before`, and `cs` is
what follows in it after `front`. -/
inductive Spells (before : List Char) : (front cs : List Char) → List Place → Prop
  | nil {front cs} (h : ∀ c ∈ cs, isSpace c = true) : Spells before front cs []
  | cons {front gap text rest a ps} (hgap : ∀ c ∈ gap, isSpace c = true)
      (ha : a.IsWritten text) (h : Spells before (front ++ gap ++ text) rest ps) :
      Spells before front (gap ++ (text ++ rest)) (⟨before, front ++ gap, a, text⟩ :: ps)

variable {before front : List Char} {p : Place} {ps : List Place}

theorem attributesFrom_succ_eq_ok_iff {n : Nat} {as : List RawAttribute} :
    attributesFrom (n + 1) cs = .ok as ↔
      ((∀ c ∈ cs, isSpace c = true) ∧ as = []) ∨
      ∃ gap text rest a later, cs = gap ++ (text ++ rest) ∧ (∀ c ∈ gap, isSpace c = true) ∧
        a.IsWritten text ∧ attributesFrom n rest = .ok later ∧ as = a :: later := by
  rw [attributesFrom]
  constructor
  · intro h
    split at h
    · rename_i hblank
      cases h
      exact .inl ⟨List.dropWhile_eq_nil_iff.mp hblank, rfl⟩
    · split at h
      · rename_i a rest hread
        have hhead : ∀ c ∈ (cs.dropWhile isSpace).head?, isSpace c = false := by
          intro c hc
          have := List.head?_dropWhile_not isSpace cs
          simp_all
        obtain ⟨text, ha, htext⟩ := exists_isWritten_of_attribute? hread hhead
        cases hlater : attributesFrom n rest with
        | error e =>
            rw [hlater] at h
            cases h
        | ok later =>
            rw [hlater] at h
            cases h
            refine .inr ⟨cs.takeWhile isSpace, text, rest, a, later, ?_,
              fun c => List.mem_takeWhile_imp, ha, hlater, rfl⟩
            rw [← htext, List.takeWhile_append_dropWhile]
      · cases h
  · rintro (⟨hblank, rfl⟩ | ⟨gap, text, rest, a, later, rfl, hgap, ha, hlater, rfl⟩)
    · rw [List.dropWhile_eq_nil_iff.mpr hblank]
    · rw [Text.dropWhile_append_of_head hgap (ha.head rest)]
      split
      · rename_i hnil
        exact (ha.ne_nil (List.append_eq_nil_iff.mp hnil).1).elim
      · simp only [ha.read rest, hlater]
        rfl

/-- The attributes of a tag are read one after the other. -/
theorem attributesFrom_eq_ok_iff {n : Nat} {as : List RawAttribute} (before front : List Char)
    (hn : cs.length ≤ n) :
    attributesFrom n cs = .ok as ↔
      ∃ ps, Spells before front cs ps ∧ ps.map (·.raw) = as := by
  induction n generalizing front cs as with
  | zero =>
      obtain rfl := List.length_eq_zero_iff.mp (Nat.le_zero.mp hn)
      rw [attributesFrom, Except.ok.injEq]
      constructor
      · rintro rfl
        exact ⟨[], .nil (by simp), rfl⟩
      · rintro ⟨ps, h, rfl⟩
        generalize hcs : ([] : List Char) = cs at h
        cases h with
        | nil => rfl
        | cons _ ha _ => simp [ha.ne_nil] at hcs
  | succ n ih =>
      have hshorter : ∀ {gap text rest : List Char}, cs = gap ++ (text ++ rest) → text ≠ [] →
          rest.length ≤ n := by
        rintro gap text rest rfl htext
        have := List.length_pos_of_ne_nil htext
        simp only [List.length_append] at hn
        omega
      rw [attributesFrom_succ_eq_ok_iff]
      constructor
      · rintro (⟨hblank, rfl⟩ | ⟨gap, text, rest, a, later, hcs, hgap, ha, hlater, rfl⟩)
        · exact ⟨[], .nil hblank, rfl⟩
        · obtain ⟨ps, hps, rfl⟩ := (ih _ (hshorter hcs ha.ne_nil)).mp hlater
          subst hcs
          exact ⟨_, .cons hgap ha hps, rfl⟩
      · rintro ⟨ps, h, rfl⟩
        cases h with
        | nil hblank => exact .inl ⟨hblank, rfl⟩
        | @cons _ gap text rest a ps hgap ha h =>
            have hlater := (ih _ (hshorter rfl ha.ne_nil)).mpr ⟨ps, h, rfl⟩
            exact .inr ⟨gap, text, rest, a, _, rfl, hgap, ha, hlater, rfl⟩

theorem Spells.unique {ps' : List Place} (h : Spells before front cs ps)
    (h' : Spells before front cs ps') : ps = ps' := by
  -- a text after white space starts with a character that is none
  have hnot : ∀ {gap text rest : List Char} {a : RawAttribute}, a.IsWritten text →
      ¬∀ c ∈ gap ++ (text ++ rest), isSpace c = true := by
    intro gap text rest a ha hblank
    obtain ⟨c, text, rfl⟩ := List.exists_cons_of_ne_nil ha.ne_nil
    have hc := ha.head rest c rfl
    rw [hblank c (by simp)] at hc
    cases hc
  induction h generalizing ps' with
  | nil hblank =>
      cases h' with
      | nil => rfl
      | cons _ ha _ => exact (hnot ha hblank).elim
  | @cons front gap text rest a ps hgap ha h ih =>
      generalize hcs : gap ++ (text ++ rest) = cs at h'
      cases h' with
      | nil hblank => exact (hnot ha (hcs ▸ hblank)).elim
      | @cons _ gap' text' rest' a' ps' hgap' ha' h' =>
          have hgaps := congrArg (List.takeWhile isSpace) hcs
          rw [Text.takeWhile_append_of_head hgap (ha.head rest),
            Text.takeWhile_append_of_head hgap' (ha'.head rest')] at hgaps
          subst hgaps
          have htexts := List.append_cancel_left hcs
          have hread := ha.read rest
          rw [htexts, ha'.read rest'] at hread
          obtain ⟨rfl, rfl⟩ := Prod.mk.inj (Option.some.inj hread)
          obtain rfl := List.append_cancel_right htexts
          rw [ih h']

/-! ### Searching in a tag -/

theorem indexOfChars?_eq_some_iff {piece : List Char} {k : Nat} :
    Text.indexOfChars? piece text = some k ↔
      (∃ front rest, text = front ++ (piece ++ rest) ∧ front.length = k) ∧
      ∀ front rest, text = front ++ (piece ++ rest) → k ≤ front.length := by
  induction text generalizing k with
  | nil =>
      rw [Text.indexOfChars?]
      cases piece with
      | nil =>
          simp only [List.isEmpty_nil, if_true, Option.some.injEq]
          constructor
          · rintro rfl
            exact ⟨⟨[], [], rfl, rfl⟩, fun _ _ _ => Nat.zero_le _⟩
          · rintro ⟨-, hfirst⟩
            exact (Nat.le_zero.mp (hfirst [] [] rfl)).symm
      | cons x piece => simp
  | cons c cs ih =>
      rw [Text.indexOfChars?]
      by_cases hhere : piece.isPrefixOf (c :: cs) = true
      · obtain ⟨rest, hrest⟩ := List.isPrefixOf_iff_prefix.mp hhere
        rw [if_pos hhere, Option.some.injEq]
        constructor
        · rintro rfl
          exact ⟨⟨[], rest, hrest.symm, rfl⟩, fun _ _ _ => Nat.zero_le _⟩
        · rintro ⟨-, hfirst⟩
          exact (Nat.le_zero.mp (hfirst [] rest hrest.symm)).symm
      · -- an occurrence is one in the tail
        have hshift : ∀ {front rest}, c :: cs = front ++ (piece ++ rest) →
            ∃ front', front = c :: front' ∧ cs = front' ++ (piece ++ rest) := by
          intro front rest h
          cases front with
          | nil => exact (hhere (List.isPrefixOf_iff_prefix.mpr ⟨rest, h.symm⟩)).elim
          | cons x front =>
              obtain ⟨rfl, rfl⟩ := List.cons.inj h
              exact ⟨front, rfl, rfl⟩
        rw [if_neg hhere, Option.map_eq_some_iff]
        constructor
        · rintro ⟨k, hk, rfl⟩
          obtain ⟨⟨front, rest, rfl, rfl⟩, hfirst⟩ := ih.mp hk
          refine ⟨⟨c :: front, rest, rfl, rfl⟩, fun front' rest' h => ?_⟩
          obtain ⟨front', rfl, htail⟩ := hshift h
          exact Nat.succ_le_succ (hfirst front' rest' htail)
        · rintro ⟨⟨front, rest, h, rfl⟩, hfirst⟩
          obtain ⟨front, rfl, htail⟩ := hshift h
          refine ⟨front.length, ih.mpr ⟨⟨front, rest, htail, rfl⟩, fun front' rest' h' => ?_⟩, rfl⟩
          exact Nat.le_of_succ_le_succ (hfirst (c :: front') rest' (congrArg (c :: ·) h'))

theorem find?_eq_byteLength_iff {piece : List Char} :
    find? piece (front ++ rest) = some (byteLength front) ↔
      piece <+: rest ∧
        ∀ front' rest', front ++ rest = front' ++ (piece ++ rest') →
          front.length ≤ front'.length := by
  rw [find?, Option.map_eq_some_iff]
  constructor
  · rintro ⟨k, hk, hlength⟩
    obtain ⟨⟨front', rest', htext, rfl⟩, hfirst⟩ := indexOfChars?_eq_some_iff.mp hk
    rw [htext, List.take_left] at hlength
    obtain ⟨rfl, rfl⟩ := Text.eq_of_byteLength_eq htext hlength.symm
    exact ⟨List.prefix_append .., hfirst⟩
  · rintro ⟨⟨rest', rfl⟩, hfirst⟩
    refine ⟨front.length, indexOfChars?_eq_some_iff.mpr ⟨⟨front, rest', rfl, rfl⟩, hfirst⟩, ?_⟩
    rw [List.take_left]

theorem utf8Size_of_isQuote {q : Char} (h : isQuote q = true) : q.utf8Size = 1 := by
  simp only [isQuote, Bool.or_eq_true, beq_iff_eq] at h
  rcases h with rfl | rfl <;> decide

/-- The first quoted part of a text ends with the next quote of the same kind. -/
theorem quotedEnd?_eq_some_iff {n : Nat} :
    quotedEnd? text = some n ↔
      ∃ lead q value rest, text = lead ++ q :: (value ++ q :: rest) ∧
        (∀ c ∈ lead, isQuote c = false) ∧ isQuote q = true ∧ q ∉ value ∧
        n = byteLength (lead ++ q :: (value ++ [q])) := by
  have hquote : ∀ {c : Char}, (c != '"' && c != '\'') = true ↔ isQuote c = false := by
    intro c
    simp [isQuote]
  have hquote' : ∀ {c : Char}, (c != '"' && c != '\'') = false ↔ isQuote c = true := by
    intro c
    rw [← Bool.not_eq_true, hquote, Bool.not_eq_false]
  have hlength : ∀ {lead value : List Char} {q : Char}, isQuote q = true →
      byteLength (lead ++ q :: (value ++ [q])) = byteLength lead + 1 + byteLength value + 1 := by
    intro lead value q hq
    simp only [Text.byteLength_append, Text.byteLength_cons, Text.byteLength_nil,
      utf8Size_of_isQuote hq]
    omega
  constructor
  · intro h
    rw [quotedEnd?] at h
    split at h
    · cases h
    · rename_i q tail hdrop
      have hq : isQuote q = true := by
        have := List.head?_dropWhile_not (fun c => c != '"' && c != '\'') text
        rw [hdrop] at this
        exact hquote'.mp (by simpa using this)
      have htext := List.takeWhile_append_dropWhile
        (p := fun c => c != '"' && c != '\'') (l := text)
      rw [hdrop] at htext
      split at h
      · rename_i hmem
        obtain ⟨value, rest, rfl, hvalue⟩ :=
          List.eq_append_cons_of_mem (List.contains_iff_mem.mp hmem)
        rw [Text.takeWhile_append_sep hvalue, Option.some.injEq] at h
        refine ⟨_, q, value, rest, htext.symm, fun c hc => ?_, hq, hvalue, ?_⟩
        · exact hquote.mp (List.mem_takeWhile_imp (p := fun c => c != '"' && c != '\'') hc)
        · rw [hlength hq, ← h]
      · cases h
  · rintro ⟨lead, q, value, rest, rfl, hlead, hq, hvalue, rfl⟩
    have hlead' : ∀ c ∈ lead, (c != '"' && c != '\'') = true := fun c hc => hquote.mpr (hlead c hc)
    have hhead : ∀ c ∈ (q :: (value ++ q :: rest)).head?, (c != '"' && c != '\'') = false := by
      intro c hc
      obtain rfl : q = c := by simpa using hc
      exact hquote'.mpr hq
    rw [quotedEnd?, Text.dropWhile_append_of_head hlead' hhead,
      Text.takeWhile_append_of_head hlead' hhead]
    simp only
    rw [if_pos (by simp), Text.takeWhile_append_sep hvalue, hlength hq]

/-! ### Found places -/

/-- An attribute that a search for its key finds: the equals sign follows the key
at once, the key has no quote, and does not stand with an equals sign in the tag
before. -/
structure Place.IsPlain (p : Place) : Prop where
  joined : p.raw.key ++ ['='] <+: p.text
  unquoted : ∀ c ∈ p.raw.key, isQuote c = false
  first : ¬p.raw.key ++ ['='] <:+: p.front

namespace RawAttribute.IsWritten

theorem not_isSpace (h : a.IsWritten text) : ∀ c ∈ a.key, isSpace c = false := by
  obtain ⟨⟨c, cs, hkey, hc, hcs⟩, -⟩ := h
  rw [hkey]
  exact List.forall_mem_cons.mpr ⟨hc, fun d hd => (hcs d hd).2⟩

/-- White space before the equals sign keeps the key and the sign apart. -/
theorem joined_of_append (h : a.IsWritten text) (hstarts : a.key ++ ['='] <+: text ++ rest) :
    a.key ++ ['='] <+: text := by
  obtain ⟨-, gap, gap', quote, rfl, hgap, -⟩ := h
  rw [List.append_assoc, List.prefix_append_right_inj] at hstarts
  rw [List.prefix_append_right_inj]
  cases gap with
  | nil => exact ⟨_, rfl⟩
  | cons c gap =>
      obtain ⟨rfl, -⟩ := List.cons_prefix_cons.mp hstarts
      exact absurd (hgap '=' List.mem_cons_self) (by decide)

/-- The quoted part that is found is the value, unless the key has a quote. -/
theorem quotedEnd?_eq_iff (h : a.IsWritten text) (rest : List Char) :
    quotedEnd? (text ++ rest) = some (byteLength text) ↔ ∀ c ∈ a.key, isQuote c = false := by
  have hspace : ∀ {c}, isSpace c = true → isQuote c = false := by
    intro c hc
    simp only [isSpace, Bool.or_eq_true, beq_iff_eq] at hc
    rcases hc with ((rfl | rfl) | rfl) | rfl <;> decide
  obtain ⟨-, gap, gap', quote, rfl, hgap, hgap', hquote, hvalue⟩ := h
  rw [quotedEnd?_eq_some_iff]
  constructor
  · rintro ⟨lead, q, value, rest', htext, hlead', hq, hnot, hlength⟩ c hc
    -- both end at the same place, so they are one text
    have hwhole : (a.key ++ (gap ++ '=' :: (gap' ++ quote :: (a.value ++ [quote])))) ++ rest =
        (lead ++ q :: (value ++ [q])) ++ rest' := by
      rw [htext]
      simp
    obtain ⟨hsame, -⟩ := Text.eq_of_byteLength_eq hwhole hlength
    have hopened : (a.key ++ (gap ++ '=' :: gap')) ++ quote :: a.value = lead ++ q :: value ∧
        [quote] = [q] := List.append_inj' (by simpa using hsame) rfl
    obtain rfl := List.singleton_inj.mp hopened.2
    -- and it has its opening quote where the last quote but one stands
    have hlead := Text.eq_of_append_sep hvalue hnot hopened.1
    exact hlead' c (hlead ▸ List.mem_append_left _ hc)
  · intro hkey
    refine ⟨a.key ++ (gap ++ '=' :: gap'), quote, a.value, rest, by simp, ?_, hquote, hvalue,
      by simp⟩
    intro c hc
    simp only [List.mem_append, List.mem_cons] at hc
    rcases hc with hc | hc | rfl | hc
    · exact hkey c hc
    · exact hspace (hgap c hc)
    · decide
    · exact hspace (hgap' c hc)

end RawAttribute.IsWritten

structure Place.IsSet (p : Place) : Prop where
  written : p.raw.IsWritten p.text
  apart : ∃ front c, p.front = front ++ [c] ∧ (isSpace c = true ∨ isQuote c = true)

namespace Place.IsSet

/-- A key without quotes cannot begin before its place and end after it. -/
theorem length_le_of_append (h : p.IsSet) (hunquoted : ∀ c ∈ p.raw.key, isQuote c = false)
    (hfirst : ¬p.raw.key ++ ['='] <:+: p.front) {front' rest' : List Char}
    (heq : p.front ++ rest = front' ++ (p.raw.key ++ ['='] ++ rest')) :
    p.front.length ≤ front'.length := by
  obtain ⟨front, c, hfront, hc⟩ := h.apart
  rcases List.append_eq_append_iff.mp heq with ⟨middle, rfl, -⟩ | ⟨middle, hmiddle, htail⟩
  · simp
  · rcases List.eq_nil_or_concat' middle with rfl | ⟨middle, d, rfl⟩
    · simp [hmiddle]
    · -- what stands between is cut off by white space or a quote
      obtain rfl : c = d := by
        rw [hfront, ← List.append_assoc] at hmiddle
        exact List.singleton_inj.mp (List.append_inj' hmiddle rfl).2
      rcases List.append_eq_append_iff.mp htail with ⟨tail, htail, -⟩ | ⟨tail, hkey, -⟩
      · refine (hfirst ⟨front', tail, ?_⟩).elim
        rw [hmiddle, htail, List.append_assoc]
      · have hmem : c ∈ p.raw.key ++ ['='] := by simp [hkey]
        rcases List.mem_append.mp hmem with hmem | hmem
        · have hspace := h.written.not_isSpace c hmem
          have hquote := hunquoted c hmem
          simp_all
        · obtain rfl := List.mem_singleton.mp hmem
          exact absurd hc (by decide)

theorem find?_eq_iff (h : p.IsSet) (hunquoted : ∀ c ∈ p.raw.key, isQuote c = false)
    (rest : List Char) :
    find? (p.raw.key ++ ['=']) (p.front ++ (p.text ++ rest)) = some (byteLength p.front) ↔
      p.raw.key ++ ['='] <+: p.text ∧ ¬p.raw.key ++ ['='] <:+: p.front := by
  rw [find?_eq_byteLength_iff]
  constructor
  · rintro ⟨hstarts, hfirst⟩
    refine ⟨h.written.joined_of_append hstarts, ?_⟩
    rintro ⟨front, tail, hfront⟩
    have hle := hfirst front (tail ++ (p.text ++ rest)) (by rw [← hfront]; simp)
    have hlength := congrArg List.length hfront
    simp only [List.length_append, List.length_singleton] at hlength
    omega
  · rintro ⟨hjoined, hfirst⟩
    exact ⟨hjoined.trans (List.prefix_append ..), fun front' rest' heq =>
      h.length_le_of_append hunquoted hfirst heq⟩

theorem start_eq_iff (h : p.IsSet) (stop : Nat) :
    (attributePayload (p.front ++ (p.text ++ rest)) (byteLength p.before) stop p.raw).start =
        p.start ↔
      find? (p.raw.key ++ ['=']) (p.front ++ (p.text ++ rest)) = some (byteLength p.front) := by
  have hpos : 0 < byteLength p.front := by
    obtain ⟨front, c, hfront, -⟩ := h.apart
    exact Text.byteLength_pos (by simp [hfront])
  rw [Place.start, Text.byteLength_append]
  simp only [attributePayload, Nat.add_left_cancel_iff]
  cases find? (p.raw.key ++ ['=']) (p.front ++ (p.text ++ rest)) with
  | none => exact iff_of_false (by simp; omega) nofun
  | some n => simp

/-- The quoted part that follows ends before the tag does. -/
theorem stop_eq_iff (h : p.IsSet) {stop : Nat} (hstop : p.stop < stop)
    (hfind : find? (p.raw.key ++ ['=']) (p.front ++ (p.text ++ rest)) =
      some (byteLength p.front)) :
    (attributePayload (p.front ++ (p.text ++ rest)) (byteLength p.before) stop p.raw).stop =
        p.stop ↔
      ∀ c ∈ p.raw.key, isQuote c = false := by
  have hslice : slice (p.front ++ (p.text ++ rest)) (byteLength p.front)
      (byteLength (p.front ++ (p.text ++ rest))) = p.text ++ rest := by
    have := Text.sliceChars?_append p.front (p.text ++ rest) []
    rw [List.append_nil] at this
    rw [slice, this, Option.getD_some]
  have hlength : p.stop = byteLength p.before + byteLength p.front + byteLength p.text := by
    rw [Place.stop, Text.byteLength_append, Text.byteLength_append]
  rw [← h.written.quotedEnd?_eq_iff rest]
  simp only [attributePayload, hfind, Option.getD_some, hslice]
  cases quotedEnd? (p.text ++ rest) with
  | none => exact iff_of_false (by simp; omega) nofun
  | some n =>
      simp only [Option.map_some, Option.getD_some, Option.some.injEq]
      omega

/-- The node of an attribute spans its text just if the attribute is plain. -/
theorem span_iff_isPlain (h : p.IsSet) {stop : Nat} (hstop : p.stop < stop) :
    ((attributePayload (p.front ++ (p.text ++ rest)) (byteLength p.before) stop p.raw).start =
        p.start ∧
      (attributePayload (p.front ++ (p.text ++ rest)) (byteLength p.before) stop p.raw).stop =
        p.stop) ↔ p.IsPlain := by
  rw [h.start_eq_iff]
  constructor
  · rintro ⟨hfind, hend⟩
    have hunquoted := (h.stop_eq_iff hstop hfind).mp hend
    obtain ⟨hjoined, hfirst⟩ := (h.find?_eq_iff hunquoted rest).mp hfind
    exact ⟨hjoined, hunquoted, hfirst⟩
  · intro hplain
    have hfind := (h.find?_eq_iff hplain.unquoted rest).mpr ⟨hplain.joined, hplain.first⟩
    exact ⟨hfind, (h.stop_eq_iff hstop hfind).mpr hplain.unquoted⟩

end Place.IsSet

/-! ### The attributes of a tag -/

/-- What an attribute can follow: a quote, or anything if white space comes
first. -/
def CanFollow (front cs : List Char) : Prop :=
  ∃ front' c, front = front' ++ [c] ∧ (isQuote c = true ∨ ∀ d ∈ cs.head?, isSpace d = true)

namespace Spells

theorem isSet (h : Spells before front cs ps) (hfront : CanFollow front cs) :
    ∀ p ∈ ps, p.IsSet := by
  induction h with
  | nil => simp
  | @cons front gap text rest a ps hgap ha _ ih =>
      have hlater : CanFollow (front ++ gap ++ text) rest := by
        rcases List.eq_nil_or_concat' text with rfl | ⟨text, c, rfl⟩
        · exact (ha.ne_nil rfl).elim
        · exact ⟨front ++ gap ++ text, c, by simp, .inl (ha.getLast c (by simp))⟩
      refine List.forall_mem_cons.mpr ⟨⟨ha, ?_⟩, ih hlater⟩
      rcases List.eq_nil_or_concat' gap with rfl | ⟨gap, c, rfl⟩
      · obtain ⟨front', c, rfl, hc | hspace⟩ := hfront
        · exact ⟨front', c, by simp, .inr hc⟩
        · obtain ⟨d, text, rfl⟩ := List.exists_cons_of_ne_nil ha.ne_nil
          have hd := ha.head rest d rfl
          rw [hspace d rfl] at hd
          cases hd
      · exact ⟨front ++ gap, c, by simp, .inl (hgap c (by simp))⟩

/-- An attribute stands in its tag where its place says. -/
theorem exists_append (h : Spells before front cs ps) :
    ∀ p ∈ ps, p.before = before ∧ ∃ rest, front ++ cs = p.front ++ (p.text ++ rest) := by
  induction h with
  | nil => simp
  | @cons front gap text rest a ps _ _ _ ih =>
      refine List.forall_mem_cons.mpr ⟨⟨rfl, rest, by simp⟩, fun p hp => ?_⟩
      obtain ⟨hbefore, rest', heq⟩ := ih p hp
      exact ⟨hbefore, rest', by rw [← heq]; simp⟩

theorem le_start (h : Spells before front cs ps) :
    ∀ p ∈ ps, byteLength (before ++ front) ≤ p.start := by
  induction h with
  | nil => simp
  | cons _ _ _ ih =>
      refine List.forall_mem_cons.mpr ⟨?_, fun p hp => ?_⟩
      · simp only [Place.start, Text.byteLength_append]
        omega
      · have := ih p hp
        simp only [Text.byteLength_append] at this ⊢
        omega

/-- The texts of attributes follow each other. -/
theorem pairwise (h : Spells before front cs ps) : ps.Pairwise fun p q => p.stop ≤ q.start := by
  induction h with
  | nil => exact .nil
  | cons _ _ h ih =>
      refine List.pairwise_cons.mpr ⟨fun p hp => ?_, ih⟩
      have := h.le_start p hp
      simp only [Place.stop, Text.byteLength_append] at this ⊢
      omega

end Spells

end LintEngine.Xml
