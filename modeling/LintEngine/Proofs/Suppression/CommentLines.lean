import LintEngine.Proofs.Suppression
import LintEngine.Proofs.Tree.Lines

/-!
On which line a comment is found.

The search counts down from the line that was noted for the node when the tree
was finished, and takes its text from the lines before the node. The two agree:
the note counts the newlines before the node, and these are what separates the
lines. So the number that is found is the number of the line in the source.
-/

namespace LintEngine.Suppression

variable {i : Issue} {b : Builder} {id : NodeId} {n : Node} {source : String}

def IsLine (text : List Char) (number : Nat) (line : List Char) : Prop :=
  ∃ k, number = k + 1 ∧ Text.IsFieldAt (· == '\n') text k line

structure IsClosestAbove (text : List Char) (number k : Nat) (line : List Char) : Prop where
  isLine : IsLine text k line
  above : k < number
  written : line.all Text.isBlank = false
  blank : ∀ j between, k < j → j < number → IsLine text j between →
    between.all Text.isBlank = true

theorem isLine_succ_iff {text line : List Char} {k : Nat} :
    IsLine text (k + 1) line ↔ (Text.splitChars (· == '\n') text)[k]? = some line := by
  rw [IsLine, Text.getElem?_splitChars_iff]
  constructor
  · rintro ⟨k', hk, h⟩
    rwa [Nat.succ.inj hk]
  · exact fun h => ⟨k, rfl, h⟩

/-- The search among the lines `above` finds the closest line, if these are the
first lines of the text. -/
theorem isDirectiveLine_iff_closest {text own rest : List Char} {above later : List (List Char)}
    (htext : Text.splitChars (· == '\n') text = above ++ (own ++ rest) :: later) {k : Nat} :
    IsDirectiveLine i above own (above.length + 1) k ↔
      (k = above.length + 1 ∧ lineMatches i own = true) ∨
      (lineMatches i own = false ∧
        ∃ line, IsClosestAbove text (above.length + 1) k line ∧ lineMatches i line = true) := by
  have hline : ∀ {m l}, m < above.length → (IsLine text (m + 1) l ↔ above[m]? = some l) := by
    intro m l hm
    rw [isLine_succ_iff, htext, List.getElem?_append_left hm]
  constructor
  · rintro (h | @⟨front, blanks, line, hown, rfl, hblanks, hline', h⟩)
    · exact .inl ⟨rfl, h⟩
    · have hk : (front ++ line :: blanks).length + 1 - (blanks.length + 1) = front.length + 1 := by
        simp only [List.length_append, List.length_cons]
        omega
      refine .inr ⟨hown, line, ⟨?_, ?_, hline', ?_⟩, h⟩
      · rw [hk, hline (by simp)]
        simp
      · rw [hk]
        simp
      · intro j l hj hj' hl
        rw [hk] at hj
        obtain ⟨m, rfl⟩ : ∃ m, j = front.length + 1 + m + 1 := ⟨j - front.length - 2, by omega⟩
        rw [hline (by omega), List.getElem?_append_right (by omega),
          show front.length + 1 + m - front.length = m + 1 by omega, List.getElem?_cons_succ] at hl
        exact hblanks l (List.mem_of_getElem? hl)
  · rintro (⟨rfl, h⟩ | ⟨hown, line, hclosest, h⟩)
    · exact .same h
    · obtain ⟨m, rfl, -⟩ := hclosest.isLine
      have hm : m < above.length := Nat.lt_of_succ_lt_succ hclosest.above
      have hat := (hline hm).mp hclosest.isLine
      have habove : above = above.take m ++ line :: above.drop (m + 1) := by
        obtain ⟨_, rfl⟩ := List.getElem?_eq_some_iff.mp hat
        simp
      have hblanks : ∀ l ∈ above.drop (m + 1), l.all Text.isBlank = true := by
        intro l hl
        obtain ⟨j, hj⟩ := List.mem_iff_getElem?.mp hl
        rw [List.getElem?_drop] at hj
        obtain ⟨hlt, -⟩ := List.getElem?_eq_some_iff.mp hj
        exact hclosest.blank (m + 1 + j + 1) l (by omega) (by omega) ((hline hlt).mpr hj)
      have hk : m + 1 = above.length + 1 - ((above.drop (m + 1)).length + 1) := by
        rw [List.length_drop]
        omega
      rw [hk]
      exact .above hown habove hblanks hclosest.written h

theorem node_build (hnode : b.nodes[id]? = some n) :
    b.build.node id = Builder.placed (b.source.map LineIndex.ofText) n := by
  rw [Tree.node, Builder.build, Array.getD_eq_getD_getElem?, Array.getElem?_map, hnode]
  rfl

/-- The line that is noted for a node when its tree is finished. -/
theorem line_build {before after : List Char} (hsource : b.source = some source)
    (hnode : b.nodes[id]? = some n) (hline : n.line = 0)
    (htext : source.toList = before ++ after)
    (hstart : Text.byteLength before = min n.start source.utf8ByteSize) :
    (b.build.node id).start = n.start ∧ (b.build.node id).line = before.count '\n' + 1 := by
  have hafter : ∀ c ∈ after.head?, n.start < Text.byteLength before + c.utf8Size := by
    intro c hc
    obtain ⟨rest, rfl⟩ : ∃ rest, after = c :: rest := ⟨after.tail, List.eq_cons_of_mem_head? hc⟩
    have hlength := congrArg Text.byteLength htext
    rw [Text.byteLength_toList, Text.byteLength_append, Text.byteLength_cons] at hlength
    have := c.utf8Size_pos
    omega
  have hposition : ((LineIndex.ofText source).position n.start).1 = before.count '\n' + 1 :=
    LineIndex.line_position htext (by omega) hafter
  rw [node_build hnode, hsource, Option.map_some, Builder.placed, if_pos hline]
  exact ⟨rfl, hposition⟩

/-- A comment is found on the line of the node, as far as that stands before the
node, or else on the closest line above that is not blank; and the number that is
found is the number of that line in the source. -/
theorem commentLine?_finds_line (i : Issue) {before after : List Char}
    (hsource : b.source = some source) (hnode : b.nodes[id]? = some n) (hline : n.line = 0)
    (htext : source.toList = before ++ after)
    (hstart : Text.byteLength before = min n.start source.utf8ByteSize) :
    ∃ own rest, IsLine before (b.build.node id).line own ∧
      IsLine source.toList (b.build.node id).line (own ++ rest) ∧
      ∀ k, commentLine? b.build id i = some k ↔
        (k = (b.build.node id).line ∧ lineMatches i own = true) ∨
        (lineMatches i own = false ∧
          ∃ line, IsClosestAbove source.toList (b.build.node id).line k line ∧
            lineMatches i line = true) := by
  obtain ⟨hstart', hline'⟩ := line_build hsource hnode hline htext hstart
  obtain ⟨above, own, hbefore⟩ := Text.exists_splitChars_eq_concat (· == '\n') before
  obtain ⟨rest, later, hafter⟩ := List.exists_cons_of_ne_nil
    (Text.splitChars_ne_nil (· == '\n') after)
  have hlines := Text.splitChars_append hbefore hafter
  rw [← htext] at hlines
  -- the newlines before the node are the ends of the lines above it
  have habove : (b.build.node id).line = above.length + 1 := by
    have hlength := Text.length_splitChars (· == '\n') before
    rw [hbefore, List.length_append, List.length_singleton] at hlength
    rw [hline', hlength]
    rfl
  refine ⟨own, rest, ?_, ?_, fun k => ?_⟩
  · rw [habove, isLine_succ_iff, hbefore]
    simp
  · rw [habove, isLine_succ_iff, hlines]
    simp
  · have htake : Text.takeBytes? source.toList
        (min (b.build.node id).start source.utf8ByteSize) = some before := by
      rw [hstart', ← hstart, htext, Text.takeBytes?_append]
    rw [habove, ← isDirectiveLine_iff_closest hlines, ← habove, commentLine?_eq_some_iff]
    constructor
    · rintro ⟨source', before', above', own', hsource', hbefore', hlines', h⟩
      obtain rfl : source = source' := Option.some.inj (hsource.symm.trans hsource')
      obtain rfl : before = before' := Option.some.inj (htake.symm.trans hbefore')
      obtain ⟨rfl, hown⟩ := List.append_inj' (hbefore.symm.trans hlines') rfl
      obtain rfl := List.singleton_inj.mp hown
      exact h
    · exact fun h => ⟨source, before, above, own, hsource, htake, hbefore, h⟩

/-- A comment on the second line of a text that starts with an empty line, and
two blank lines below it. -/
def spacedText : String := "\r\n// noinspection Spaced\r\n \t\r\n\n  void m();"

def spacedIssue : Issue where
  id := "Spaced"
  detector := "space"

def spaced : Builder :=
  Builder.start ⟨"A.java"⟩ .source .javaFile (some spacedText) {}
    |>.leaf { kind := .method, start := 33 }

/-- From the fifth line on, the comment is the closest line that is not blank. -/
theorem commentLine?_spaced :
    commentLine? spaced.build 1 spacedIssue = some 2 ∧ (spaced.build.node 1).line = 5 ∧
    ∃ line, IsClosestAbove spacedText.toList 5 2 line ∧ lineMatches spacedIssue line = true := by
  have hfound : commentLine? spaced.build 1 spacedIssue = some 2 := by decide +kernel
  have hline : (spaced.build.node 1).line = 5 := by decide +kernel
  have hsource : spaced.source = some spacedText := rfl
  have hnode : spaced.nodes[1]? = some { kind := .method, start := 33, parent := some 0 } := rfl
  have htext : spacedText.toList = spacedText.toList.take 33 ++ spacedText.toList.drop 33 :=
    (List.take_append_drop ..).symm
  obtain ⟨own, rest, -, -, hiff⟩ :=
    commentLine?_finds_line spacedIssue hsource hnode rfl htext (by decide +kernel)
  rw [hline] at hiff
  rcases (hiff 2).mp hfound with ⟨h, -⟩ | ⟨-, h⟩
  · exact absurd h (by decide)
  · exact ⟨hfound, hline, h⟩

end LintEngine.Suppression
