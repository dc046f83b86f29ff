import LintEngine.Proofs.Suppression

/-!
Which issues the comments in a line name.

A directive is a marker, perhaps white space, one of the words, white space and a
list of ids. The list ends before the first character that no id has, and in an
XML comment also before the closing of the comment. The search knows the first
end only. The closing starts with two hyphens, and ids may have hyphens, so an id
directly before the closing is read with the two hyphens at its end. All other
ids are read as they are written.
-/

namespace LintEngine.Suppression

open Text (isBlank IsFieldAt)

variable {i : Issue} {line cs marker list rest : List Char}

/-! ### Directives in a line -/

/-- A text starts with a directive, as far as its list of ids; `rest` is what
follows from there on. -/
def StartsWith (cs marker rest : List Char) : Prop :=
  ∃ gap word space, cs = marker ++ (gap ++ (word ++ (space ++ rest))) ∧ marker ∈ markers ∧
    (∀ c ∈ gap, isBlank c = true) ∧ word ∈ directiveWords ∧
    space ≠ [] ∧ (∀ c ∈ space, isBlank c = true) ∧ ∀ c ∈ rest.head?, isBlank c = false

def Contains (line marker rest : List Char) : Prop :=
  ∃ before cs, line = before ++ cs ∧ StartsWith cs marker rest

/-- Of words none of which starts another one, at most one can stand at the head
of a text. -/
theorem afterWord?_eq_some_iff {words : List (List Char)}
    (hwords : ∀ v ∈ words, ∀ w ∈ words, v <+: w → v = w) :
    afterWord? words cs = some rest ↔ ∃ w ∈ words, cs = w ++ rest := by
  rw [afterWord?, Option.map_eq_some_iff]
  constructor
  · rintro ⟨w, hfind, rfl⟩
    have hw : w.isPrefixOf cs = true := by simpa using List.find?_some hfind
    refine ⟨w, List.mem_of_find?_eq_some hfind, ?_⟩
    exact (List.prefix_iff_eq_append.mp (List.isPrefixOf_iff_prefix.mp hw)).symm
  · rintro ⟨w, hw, rfl⟩
    obtain ⟨v, hfind⟩ : ∃ v, words.find? (·.isPrefixOf (w ++ rest)) = some v := by
      rw [← Option.isSome_iff_exists, List.find?_isSome]
      exact ⟨w, hw, List.isPrefixOf_iff_prefix.mpr (List.prefix_append w rest)⟩
    have hv : v <+: w ++ rest :=
      List.isPrefixOf_iff_prefix.mp (by simpa using List.find?_some hfind)
    have hvw : v = w := by
      rcases List.prefix_or_prefix_of_prefix hv (List.prefix_append w rest) with h | h
      · exact hwords v (List.mem_of_find?_eq_some hfind) w hw h
      · exact (hwords w hw v (List.mem_of_find?_eq_some hfind) h).symm
    subst hvw
    exact ⟨v, hfind, List.drop_left⟩

theorem directiveHere?_eq_some_iff :
    directiveHere? cs = some list ↔
      ∃ marker rest, StartsWith cs marker rest ∧ list = rest.takeWhile isListChar := by
  have hmarkers : ∀ v ∈ markers, ∀ w ∈ markers, v <+: w → v = w := by decide
  have hwords : ∀ v ∈ directiveWords, ∀ w ∈ directiveWords, v <+: w → v = w := by decide
  have hblank : ∀ w ∈ directiveWords, ∀ c ∈ w.head?, isBlank c = false := by
    have hn : isBlank 'n' = false := by decide
    have hs : isBlank 's' = false := by decide
    simp [directiveWords, hn, hs]
  have hne : ∀ w ∈ directiveWords, w ≠ [] := by decide
  simp only [directiveHere?, Option.bind_eq_bind, Option.bind_eq_some_iff,
    afterWord?_eq_some_iff hmarkers, afterWord?_eq_some_iff hwords]
  constructor
  · rintro ⟨afterMarker, ⟨marker, hmarker, rfl⟩, afterName, ⟨word, hword, hname⟩, h⟩
    split at h
    · rename_i hspace
      refine ⟨marker, afterName.dropWhile isBlank, ⟨afterMarker.takeWhile isBlank, word,
        afterName.takeWhile isBlank, ?_, hmarker, ?_, hword, ?_, ?_, ?_⟩,
        (Option.some.inj h).symm⟩
      · rw [List.takeWhile_append_dropWhile, ← hname, List.takeWhile_append_dropWhile]
      · exact fun c hc => List.mem_takeWhile_imp hc
      · cases afterName with
        | nil => simp at hspace
        | cons c cs => simp_all
      · exact fun c hc => List.mem_takeWhile_imp hc
      · intro c hc
        have := List.head?_dropWhile_not isBlank afterName
        simp_all
    · cases h
  · rintro ⟨marker, rest, ⟨gap, word, space, rfl, hmarker, hgap, hword, hne', hspace, hrest⟩, rfl⟩
    refine ⟨_, ⟨marker, hmarker, rfl⟩, space ++ rest, ⟨word, hword, ?_⟩, ?_⟩
    · apply Text.dropWhile_append_of_head hgap
      intro c hc
      apply hblank word hword c
      rwa [List.head?_append_of_ne_nil _ (hne word hword)] at hc
    · rw [if_pos, Text.dropWhile_append_of_head hspace hrest]
      cases space with
      | nil => exact (hne' rfl).elim
      | cons c space => simpa using hspace c List.mem_cons_self

theorem mem_directives_iff :
    list ∈ directives line ↔
      ∃ marker rest, Contains line marker rest ∧ list = rest.takeWhile isListChar := by
  have hsuffix : list ∈ directives line ↔
      ∃ before cs, line = before ++ cs ∧ directiveHere? cs = some list := by
    induction line with
    | nil =>
        refine iff_of_false (by simp [directives]) ?_
        rintro ⟨before, cs, hcs, h⟩
        obtain ⟨-, rfl⟩ := List.append_eq_nil_iff.mp hcs.symm
        cases h
    | cons c cs ih =>
        rw [directives, List.mem_append, Option.mem_toList, ih]
        constructor
        · rintro (h | ⟨before, cs', rfl, h⟩)
          · exact ⟨[], c :: cs, rfl, h⟩
          · exact ⟨c :: before, cs', rfl, h⟩
        · rintro ⟨before, cs', hcs, h⟩
          cases before with
          | nil => exact .inl (by rw [hcs]; exact h)
          | cons d before =>
              obtain ⟨rfl, rfl⟩ := List.cons.inj hcs
              exact .inr ⟨before, cs', rfl, h⟩
  rw [hsuffix]
  simp only [directiveHere?_eq_some_iff]
  constructor
  · rintro ⟨before, cs, hline, marker, rest, hstarts, hlist⟩
    exact ⟨marker, rest, ⟨before, cs, hline, hstarts⟩, hlist⟩
  · rintro ⟨marker, rest, ⟨before, cs, hline, hstarts⟩, hlist⟩
    exact ⟨before, cs, hline, marker, rest, hstarts, hlist⟩

/-! ### Lists of ids -/

structure Directive where
  marker : List Char
  list : List Char
  after : List Char

namespace Directive

variable (d : Directive)

/-- The directive is an XML comment that is closed directly after its list. -/
def IsClosed : Prop := d.marker = "<!--".toList ∧ "-->".toList <+: d.after

/-- The list is over: no character follows that an id can have, or the closing
does. -/
def IsOver : Prop := (∀ c ∈ d.after.head?, isListChar c = false) ∨ d.IsClosed

/-- The directive stands in a line, and its list goes on until it is over for the
first time. -/
structure IsIn (line : List Char) : Prop where
  contains : Contains line d.marker (d.list ++ d.after)
  isOver : d.IsOver
  first : ∀ front back, d.list = front ++ back → back ≠ [] →
    ¬IsOver ⟨d.marker, front, back ++ d.after⟩

/-- A list begins wherever a directive does. -/
theorem exists_isIn (h : Contains line marker rest) :
    ∃ d : Directive, d.IsIn line ∧ d.list ++ d.after = rest := by
  have hlist : ∀ cs, ∃ list after, cs = list ++ after ∧ IsOver ⟨marker, list, after⟩ ∧
      ∀ front back, list = front ++ back → back ≠ [] →
        ¬IsOver ⟨marker, front, back ++ after⟩ := by
    intro cs
    induction cs with
    | nil => exact ⟨[], [], rfl, .inl (by simp), by simp_all⟩
    | cons c cs ih =>
        by_cases hover : IsOver ⟨marker, [], c :: cs⟩
        · exact ⟨[], c :: cs, rfl, hover, by simp_all⟩
        · obtain ⟨list, after, rfl, hends, hfirst⟩ := ih
          refine ⟨c :: list, after, rfl, hends, fun front back hsplit hback => ?_⟩
          cases front with
          | nil =>
              rw [← show c :: list = back from hsplit]
              exact hover
          | cons d front =>
              obtain ⟨rfl, rfl⟩ := List.cons.inj hsplit
              exact hfirst front back rfl hback
  obtain ⟨list, after, rfl, hends, hfirst⟩ := hlist rest
  exact ⟨⟨marker, list, after⟩, ⟨h, hends, hfirst⟩, rfl⟩

variable {d}

theorem IsIn.isListChar (h : d.IsIn line) : ∀ c ∈ d.list, isListChar c = true := by
  intro c hc
  obtain ⟨front, back, hsplit⟩ := List.append_of_mem hc
  by_contra hnot
  exact h.first front (c :: back) hsplit (List.cons_ne_nil c back)
    (.inl (by simpa using hnot))

/-- What is read of a list: with the closing directly after it, also the hyphens of
the closing. -/
theorem IsIn.takeWhile_eq (h : d.IsIn line) :
    (d.IsClosed ∧ (d.list ++ d.after).takeWhile Suppression.isListChar = d.list ++ ['-', '-']) ∨
    (¬d.IsClosed ∧ (d.list ++ d.after).takeWhile Suppression.isListChar = d.list) := by
  have hhyphens : ∀ c ∈ ['-', '-'], Suppression.isListChar c = true := by
    simp [Suppression.isListChar]
  by_cases hclosed : d.IsClosed
  · obtain ⟨tail, htail⟩ := hclosed.2
    refine .inl ⟨hclosed, ?_⟩
    rw [← htail, show "-->".toList ++ tail = ['-', '-'] ++ '>' :: tail from rfl,
      ← List.append_assoc]
    apply Text.takeWhile_append_of_head
    · intro c hc
      exact (List.mem_append.mp hc).elim (h.isListChar c) (hhyphens c)
    · intro c hc
      obtain rfl : '>' = c := by simpa using hc
      decide
  · refine .inr ⟨hclosed, Text.takeWhile_append_of_head h.isListChar ?_⟩
    exact h.isOver.resolve_right hclosed

end Directive

/-! ### Ids -/

def isSeparator (c : Char) : Bool := c == ',' || c == ' '

/-- A line names an issue: one of the ids in the list of a directive does, as a
whole word. -/
def NamesIssue (i : Issue) (line : List Char) : Prop :=
  ∃ d : Directive, d.IsIn line ∧
    ∃ k id, IsFieldAt isSeparator d.list k id ∧ tokenMatches (String.ofList id) i = true

def IsIdAtClosing (line id : List Char) : Prop :=
  ∃ d : Directive, d.IsIn line ∧ d.IsClosed ∧
    IsFieldAt isSeparator d.list (d.list.countP isSeparator) id

def IsIdApart (line id : List Char) : Prop :=
  ∃ d : Directive, d.IsIn line ∧ ∃ k, IsFieldAt isSeparator d.list k id ∧
    ¬(d.IsClosed ∧ k = d.list.countP isSeparator)

theorem namesIssue_iff :
    NamesIssue i line ↔
      (∃ id, IsIdApart line id ∧ tokenMatches (String.ofList id) i = true) ∨
      (∃ id, IsIdAtClosing line id ∧ tokenMatches (String.ofList id) i = true) := by
  constructor
  · rintro ⟨d, hd, k, id, hid, h⟩
    by_cases hlast : d.IsClosed ∧ k = d.list.countP isSeparator
    · exact .inr ⟨id, ⟨d, hd, hlast.1, hlast.2 ▸ hid⟩, h⟩
    · exact .inl ⟨id, ⟨d, hd, k, hid, hlast⟩, h⟩
  · rintro (⟨id, ⟨d, hd, k, hid, -⟩, h⟩ | ⟨id, ⟨d, hd, -, hid⟩, h⟩)
    · exact ⟨d, hd, k, id, hid, h⟩
    · exact ⟨d, hd, _, id, hid, h⟩

theorem mem_listTokens_iff {token : String} :
    token ∈ listTokens list ↔
      ∃ k id, IsFieldAt isSeparator list k id ∧ String.ofList id = token := by
  rw [show listTokens list = (Text.splitChars isSeparator list).map String.ofList from rfl,
    List.mem_map]
  simp only [Text.mem_splitChars_iff]
  constructor
  · rintro ⟨id, ⟨k, hk⟩, h⟩
    exact ⟨k, id, hk, h⟩
  · rintro ⟨k, id, hk, h⟩
    exact ⟨id, ⟨k, hk⟩, h⟩

/-- The search names an issue by an id as it is written, or by one directly before
a closing with two hyphens at its end. -/
theorem lineMatches_iff :
    lineMatches i line = true ↔
      (∃ id, IsIdApart line id ∧ tokenMatches (String.ofList id) i = true) ∨
      (∃ id, IsIdAtClosing line id ∧ tokenMatches (String.ofList (id ++ ['-', '-'])) i = true) := by
  have hhyphens : ∀ c ∈ ['-', '-'], isSeparator c = false := by simp [isSeparator]
  simp only [lineMatches, List.any_eq_true, mem_directives_iff, mem_listTokens_iff]
  constructor
  · rintro ⟨-, ⟨marker, rest, hcontains, rfl⟩, -, ⟨k, id, hid, rfl⟩, h⟩
    obtain ⟨d, hd, rfl⟩ := Directive.exists_isIn hcontains
    rcases hd.takeWhile_eq with ⟨hclosed, hlist⟩ | ⟨hopen, hlist⟩
    · rw [hlist, Text.isFieldAt_append_iff hhyphens] at hid
      rcases hid with ⟨hk, hid⟩ | ⟨rfl, front, hfront, rfl⟩
      · exact .inl ⟨id, ⟨d, hd, k, hid, fun hlast => hk hlast.2⟩, h⟩
      · exact .inr ⟨front, ⟨d, hd, hclosed, hfront⟩, h⟩
    · rw [hlist] at hid
      exact .inl ⟨id, ⟨d, hd, k, hid, fun hlast => hopen hlast.1⟩, h⟩
  · rintro (⟨id, ⟨d, hd, k, hid, hapart⟩, h⟩ | ⟨id, ⟨d, hd, hclosed, hid⟩, h⟩)
    · refine ⟨_, ⟨d.marker, _, hd.contains, rfl⟩, _, ⟨k, id, ?_, rfl⟩, h⟩
      rcases hd.takeWhile_eq with ⟨hclosed, hlist⟩ | ⟨-, hlist⟩
      · rw [hlist, Text.isFieldAt_append_iff hhyphens]
        exact .inl ⟨fun hk => hapart ⟨hclosed, hk⟩, hid⟩
      · rwa [hlist]
    · refine ⟨_, ⟨d.marker, _, hd.contains, rfl⟩, _,
        ⟨d.list.countP isSeparator, _, ?_, rfl⟩, h⟩
      rcases hd.takeWhile_eq with ⟨-, hlist⟩ | ⟨hopen, -⟩
      · rw [hlist, Text.isFieldAt_append_iff hhyphens]
        exact .inr ⟨rfl, id, hid, rfl⟩
      · exact (hopen hclosed).elim

/-- A line is found to name an issue just if it does, exactly if an id names the
issue that does not stand directly before a closing, or if those that do name it
just as well with two hyphens at their end. -/
theorem lineMatches_agrees_iff (i : Issue) (line : List Char) :
    (lineMatches i line = true ↔ NamesIssue i line) ↔
      (∃ id, IsIdApart line id ∧ tokenMatches (String.ofList id) i = true) ∨
      ((∃ id, IsIdAtClosing line id ∧ tokenMatches (String.ofList id) i = true) ↔
        ∃ id, IsIdAtClosing line id ∧
          tokenMatches (String.ofList (id ++ ['-', '-'])) i = true) := by
  have hcases : ∀ apart plain hyphened : Prop,
      ((apart ∨ hyphened ↔ apart ∨ plain) ↔ apart ∨ (plain ↔ hyphened)) := by
    intro apart plain hyphened
    tauto
  rw [lineMatches_iff, namesIssue_iff]
  exact hcases ..

/-! ### A closing without a space before it -/

def hastyIssue : Issue where
  id := "Hasty"
  detector := "haste"

def hastyLine : List Char := "<!--suppress Hasty-->".toList

theorem hastyLine_names : NamesIssue hastyIssue hastyLine := by
  have hletters : ∀ c ∈ "Hasty".toList, (isListChar c && c != '-' && !isSeparator c) = true :=
    List.all_eq_true.mp (by decide)
  simp only [Bool.and_eq_true, bne_iff_ne, Bool.not_eq_true'] at hletters
  have hspace : ∀ c ∈ [' '], isBlank c = true := List.forall_mem_singleton.mpr (by decide)
  refine ⟨⟨"<!--".toList, "Hasty".toList, "-->".toList⟩, ⟨?_, ?_, ?_⟩, 0, "Hasty".toList, ?_, ?_⟩
  · refine ⟨[], hastyLine, rfl, [], "suppress".toList, [' '], by decide, by decide, by simp,
      by decide, by simp, hspace, fun c hc => ?_⟩
    obtain rfl : 'H' = c := Option.some.inj hc
    decide
  · exact .inr ⟨rfl, List.prefix_refl _⟩
  · -- neither a character outside the alphabet nor a hyphen is among the letters
    intro front back hsplit hback
    obtain ⟨c, back, rfl⟩ := List.exists_cons_of_ne_nil hback
    obtain ⟨⟨hlist, hhyphen⟩, -⟩ :=
      hletters c (by rw [show "Hasty".toList = _ from hsplit]; simp)
    rintro (hover | ⟨-, hclosed⟩)
    · rw [hover c rfl] at hlist
      cases hlist
    · exact hhyphen (List.cons_prefix_cons.mp hclosed).1.symm
  · exact ⟨[], [], rfl, fun c hc => (hletters c hc).2, by simp, by simp, rfl⟩
  · decide

/-- The line names the issue and is not found to. -/
theorem hastyLine_not_agrees :
    ¬(lineMatches hastyIssue hastyLine = true ↔ NamesIssue hastyIssue hastyLine) := by
  intro h
  have hfound : lineMatches hastyIssue hastyLine = false := by decide +kernel
  rw [h.mpr hastyLine_names] at hfound
  cases hfound

end LintEngine.Suppression
