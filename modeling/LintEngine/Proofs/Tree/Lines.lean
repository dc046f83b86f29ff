import LintEngine.Proofs.Bytes
import LintEngine.Tree.Builder
import Mathlib.Data.List.TakeWhile
import Mathlib.Data.Prod.Lex
import Mathlib.Order.Bounds.Defs
import Mathlib.Order.Monotone.Defs

/-!
Lines and columns of byte offsets. The index of a text holds the offsets at which its lines
start, in ascending order: 0, and one more than the place of each newline. A search in this
table has one answer, which is the line, and the entry found is the start of that line.

Line and column together tell the offset, and they are in the order of the offsets.
-/

namespace LintEngine.LineIndex

open Text (byteLength encode newline)

/-! ### The table of line starts -/

theorem after_eq_idxsOf (offset : Nat) (cs : List Char) :
    after offset cs = (encode cs).idxsOf newline (offset + 1) := by
  induction cs generalizing offset with
  | nil => rfl
  | cons c cs ih =>
      have hnext : offset + c.utf8Size + 1 = offset + 1 + (String.utf8EncodeChar c).length := by
        rw [String.length_utf8EncodeChar]
        omega
      rw [after, Text.encode_cons, List.idxsOf_append, ih, hnext]
      by_cases hc : c = '\n'
      · subst hc
        rfl
      · have hnone : (String.utf8EncodeChar c).idxsOf newline (offset + 1) = [] :=
          List.idxsOf_eq_nil_iff.mpr fun b hb =>
            beq_eq_false_iff_ne.mpr (ne_of_mem_of_not_mem hb (Text.newline_not_mem hc))
        rw [if_neg (by simpa using hc), hnone, List.nil_append]

/-- The bytes of a text in front of an offset; behind the end there are no more. -/
def bytesBefore (text : String) (offset : Nat) : List UInt8 :=
  text.toUTF8.data.toList.take offset

/-- A line starts at the start of a text and behind each newline. -/
def IsLineStart (text : String) (start : Nat) : Prop :=
  start = 0 ∨ ∃ p, text.toUTF8.data[p]? = some newline ∧ start = p + 1

section

variable (text : String) (offset : Nat)

theorem starts_eq : (ofText text).starts = 0 :: text.toUTF8.data.toList.idxsOf newline 1 := by
  rw [ofText, after_eq_idxsOf, Text.encode_toList]

theorem pairwise_starts : (ofText text).starts.Pairwise (· < ·) := by
  rw [starts_eq]
  exact List.pairwise_cons.mpr ⟨fun s hs => List.ge_of_mem_idxsOf s hs, List.pairwise_idxsOf⟩

theorem mem_starts_iff {start : Nat} :
    start ∈ (ofText text).starts ↔ IsLineStart text start := by
  rw [starts_eq, List.mem_cons, List.mem_idxsOf_iff_getElem_sub_pos, IsLineStart]
  refine or_congr_right ⟨?_, ?_⟩
  · rintro ⟨hpos, hlt, hbyte⟩
    refine ⟨start - 1, ?_, by omega⟩
    rw [← Array.getElem?_toList, List.getElem?_eq_getElem hlt, beq_iff_eq.mp hbyte]
  · rintro ⟨p, hp, rfl⟩
    rw [← Array.getElem?_toList] at hp
    obtain ⟨hlt, hbyte⟩ := List.getElem?_eq_some_iff.mp hp
    exact ⟨Nat.le_add_left .., hlt, beq_iff_eq.mpr hbyte⟩

/-- The lines that start up to an offset are told by the bytes in front of it. -/
theorem takeWhile_starts : (ofText text).starts.takeWhile (· ≤ offset) =
    0 :: (bytesBefore text offset).idxsOf newline 1 := by
  have hsplit : text.toUTF8.data.toList =
      bytesBefore text offset ++ text.toUTF8.data.toList.drop offset :=
    (List.take_append_drop offset _).symm
  have hbefore : ∀ s ∈ 0 :: (bytesBefore text offset).idxsOf newline 1,
      decide (s ≤ offset) = true := by
    intro s hs
    have hlength : (bytesBefore text offset).length ≤ offset := List.length_take_le ..
    rw [decide_eq_true_iff]
    rcases List.mem_cons.mp hs with rfl | hs
    · exact Nat.zero_le _
    · have := List.lt_add_of_mem_idxsOf s hs
      omega
  have hbehind : ((text.toUTF8.data.toList.drop offset).idxsOf newline
      (1 + (bytesBefore text offset).length)).takeWhile (fun s => decide (s ≤ offset)) = [] := by
    rw [List.takeWhile_eq_nil_iff]
    intro hpos
    have hmem := List.get_mem _ ⟨0, hpos⟩
    have hle := List.ge_of_mem_idxsOf _ hmem
    have hlt := List.lt_add_of_mem_idxsOf _ hmem
    have hlength : (bytesBefore text offset).length = min offset text.toUTF8.data.toList.length :=
      List.length_take
    rw [List.length_drop] at hlt
    rw [decide_eq_true_iff]
    omega
  conv_lhs => rw [starts_eq, hsplit, List.idxsOf_append, ← List.cons_append]
  rw [List.takeWhile_append_of_pos hbefore, hbehind, List.append_nil]

end

/-! ### The search -/

/-- Where a search in a table ends: in front of the first entry above `offset`, with every
entry before it at most `offset` and every entry from it on above. -/
def IsPartitionPoint (starts : List Nat) (offset k : Nat) : Prop :=
  k ≤ starts.length ∧ ∀ i start, starts[i]? = some start → (start ≤ offset ↔ i < k)

theorem IsPartitionPoint.unique {starts : List Nat} {offset k k' : Nat}
    (h : IsPartitionPoint starts offset k) (h' : IsPartitionPoint starts offset k') : k = k' := by
  have hle : ∀ {k k'}, IsPartitionPoint starts offset k → IsPartitionPoint starts offset k' →
      k' ≤ k := by
    intro k k' h h'
    by_contra hlt
    have hk : k < starts.length := by
      have := h'.1
      omega
    have hentry := List.getElem?_eq_getElem hk
    have hiff := (h.2 k _ hentry).symm.trans (h'.2 k _ hentry)
    omega
  exact Nat.le_antisymm (hle h' h) (hle h h')

theorem isPartitionPoint_takeWhile {starts : List Nat} (h : starts.Pairwise (· < ·))
    (offset : Nat) : IsPartitionPoint starts offset (starts.takeWhile (· ≤ offset)).length := by
  induction starts with
  | nil => exact ⟨Nat.le_refl _, by simp⟩
  | cons s starts ih =>
      obtain ⟨hs, hstarts⟩ := List.pairwise_cons.mp h
      by_cases hle : s ≤ offset
      · obtain ⟨hlength, hiff⟩ := ih hstarts
        rw [List.takeWhile_cons_of_pos (by simpa using hle), List.length_cons]
        refine ⟨by simpa using hlength, fun i start hi => ?_⟩
        cases i with
        | zero =>
            obtain rfl : s = start := by simpa using hi
            simp [hle]
        | succ i => simpa using hiff i start (by simpa using hi)
      · rw [List.takeWhile_cons_of_neg (by simpa using hle), List.length_nil]
        refine ⟨Nat.zero_le _, fun i start hi => iff_of_false ?_ (Nat.not_lt_zero i)⟩
        rcases List.mem_cons.mp (List.mem_of_getElem? hi) with rfl | hmem
        · exact hle
        · have := hs start hmem
          omega

/-! ### Line and column -/

section

variable (text : String) (offset : Nat)

theorem line_eq :
    ((ofText text).position offset).1 = 1 + (bytesBefore text offset).count newline := by
  rw [position, takeWhile_starts, List.length_cons, List.length_idxsOf]
  omega

theorem line_eq_length : ((ofText text).position offset).1 =
    ((ofText text).starts.takeWhile (· ≤ offset)).length := by
  rw [line_eq, takeWhile_starts, List.length_cons, List.length_idxsOf, Nat.add_comm]

/-- The column is counted from the entry of the table that the search ends at. -/
theorem exists_entry : ∃ start,
    (ofText text).starts[((ofText text).position offset).1 - 1]? = some start ∧
    ((ofText text).position offset).2 = offset - start + 1 := by
  obtain ⟨upTo, hupTo⟩ : ∃ upTo, upTo = (ofText text).starts.takeWhile (· ≤ offset) := ⟨_, rfl⟩
  have hline : ((ofText text).position offset).1 = upTo.length :=
    hupTo ▸ line_eq_length text offset
  have hlast : upTo.length - 1 < upTo.length := by
    have := line_eq text offset
    omega
  have hprefix : upTo <+: (ofText text).starts := hupTo ▸ List.takeWhile_prefix _
  refine ⟨upTo[upTo.length - 1], ?_, ?_⟩
  · rw [hline]
    exact List.prefix_iff_getElem?.mp hprefix _ hlast
  · rw [position, ← hupTo, List.getLastD_eq_getLast?, List.getLast?_eq_getElem?,
      List.getElem?_eq_getElem hlast, Option.getD_some]

end

/-- What the line and the column of an offset are, with the offset at which the line starts. -/
structure Locates (text : String) (offset start line column : Nat) : Prop where
  /-- The search has one answer. -/
  search : ∀ k, IsPartitionPoint (ofText text).starts offset k ↔ k = line
  /-- The answer is not 0, and the table has an entry for it. -/
  entry : (ofText text).starts[line - 1]? = some start
  line_eq : line = 1 + (bytesBefore text offset).count newline
  /-- No later line starts up to the offset, and this one does, so that the distance to it
  is a number. -/
  isGreatest : IsGreatest {s | IsLineStart text s ∧ s ≤ offset} start
  column_eq : column = 1 + (offset - start)
  back : start + (column - 1) = offset

theorem exists_locates (text : String) (offset : Nat) :
    ∃ start, Locates text offset start ((ofText text).position offset).1
      ((ofText text).position offset).2 := by
  obtain ⟨start, hentry, hcolumn⟩ := exists_entry text offset
  have hsearch : IsPartitionPoint (ofText text).starts offset ((ofText text).position offset).1 :=
    line_eq_length text offset ▸ isPartitionPoint_takeWhile (pairwise_starts text) offset
  have hline := line_eq text offset
  have hle : start ≤ offset := (hsearch.2 _ _ hentry).mpr (by omega)
  refine ⟨start, fun k => ⟨fun h => h.unique hsearch, fun h => h ▸ hsearch⟩, hentry, hline,
    ⟨⟨?_, hle⟩, ?_⟩, by omega, by omega⟩
  · exact (mem_starts_iff text).mp (List.mem_of_getElem? hentry)
  · -- an entry up to the offset stands in front of the one that was found, or is it
    rintro s ⟨hs, hsle⟩
    obtain ⟨i, hi⟩ := List.getElem?_of_mem ((mem_starts_iff text).mpr hs)
    have hlt := (hsearch.2 _ _ hi).mp hsle
    rcases Nat.lt_or_eq_of_le (Nat.le_sub_one_of_lt hlt) with hbefore | rfl
    · obtain ⟨hi', rfl⟩ := List.getElem?_eq_some_iff.mp hi
      obtain ⟨hlast, rfl⟩ := List.getElem?_eq_some_iff.mp hentry
      exact (List.pairwise_iff_getElem.mp (pairwise_starts text) _ _ hi' hlast hbefore).le
    · rw [hentry] at hi
      exact (Option.some.inj hi).ge

theorem strictMono_position (text : String) :
    StrictMono fun offset => toLex ((ofText text).position offset) := by
  intro a b hab
  obtain ⟨start, ha⟩ := exists_locates text a
  obtain ⟨start', hb⟩ := exists_locates text b
  have hcount : (bytesBefore text a).count newline ≤ (bytesBefore text b).count newline :=
    (List.take_prefix_take_left hab.le).sublist.count_le newline
  have hline : ((ofText text).position a).1 ≤ ((ofText text).position b).1 := by
    rw [ha.line_eq, hb.line_eq]
    omega
  rw [Prod.Lex.toLex_lt_toLex]
  rcases Nat.lt_or_eq_of_le hline with hlt | heq
  · exact .inl hlt
  · -- on one line, columns are counted from the same start
    obtain rfl : start' = start := by
      have hentry := ha.entry
      rw [heq, hb.entry] at hentry
      exact Option.some.inj hentry
    have hback := ha.back
    have hback' := hb.back
    have hcolumn := hb.column_eq
    exact .inr ⟨heq, by omega⟩

/-- At every offset, behind the end too, the search in the table of line starts ends at an
entry. The line is one more than the number of newlines before the offset, the column is one
more than the distance from the start of the line, which gives the offset back, and later
offsets have later positions. -/
theorem positions_are_exact (text : String) :
    (∀ offset, ∃ start, Locates text offset start ((ofText text).position offset).1
      ((ofText text).position offset).2) ∧
    StrictMono fun offset => toLex ((ofText text).position offset) :=
  ⟨exists_locates text, strictMono_position text⟩

/-- The line of an offset that falls into the first character after a place, or
on its start, or anywhere behind the end of the text. -/
theorem line_position {source : String} {before after : List Char} {offset : Nat}
    (hsource : source.toList = before ++ after) (hle : byteLength before ≤ offset)
    (hlt : ∀ c ∈ after.head?, offset < byteLength before + c.utf8Size) :
    ((ofText source).position offset).1 = before.count '\n' + 1 := by
  have hbefore : (encode before).take offset = encode before :=
    List.take_of_length_le (by rwa [Text.length_encode])
  have hafter : newline ∉ (encode after).take (offset - byteLength before) := by
    cases after with
    | nil => simp [encode]
    | cons c cs =>
        have hinside : offset - byteLength before < (String.utf8EncodeChar c).length := by
          have := hlt c rfl
          rw [String.length_utf8EncodeChar]
          omega
        rw [Text.encode_cons, List.take_append_of_le_length hinside.le]
        by_cases hc : c = '\n'
        · subst hc
          -- a newline has one byte, and the offset is in front of it
          rw [Nat.lt_one_iff.mp hinside]
          exact List.not_mem_nil
        · exact fun h => Text.newline_not_mem hc (List.mem_of_mem_take h)
  rw [line_eq, bytesBefore, ← Text.encode_toList, hsource, Text.encode_append, List.take_append,
    hbefore, Text.length_encode, List.count_append, Text.count_encode,
    List.count_eq_zero_of_not_mem hafter]
  omega

end LintEngine.LineIndex
