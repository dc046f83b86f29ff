import LintEngine.Rules.Typedef
import LintEngine.Tree.Builder
import Mathlib.Data.List.Basic

/-!
Repeated values in the set of a typedef.

Two items clash if they have the same value, and they overlap if they are not
merely two ways to write fields of one name. The search goes to the first item
that clashes with an earlier one and judges this pair alone. So what it reports
does overlap; but if this first pair is one of aliases, the search ends with
nothing, whatever items come after it.
-/

namespace LintEngine.Rules

variable (v : View)

def listedItems (t : Tree) (id : NodeId) : List NodeId :=
  match (valueNode? t id).map t.skipParentheses with
  | some array =>
    if t.kind array == .arrayInit then (t.children array).map t.skipParentheses else []
  | none => []

theorem duplicate_eq_firstDuplicate (id : NodeId) :
    duplicate v id = firstDuplicate v [] (listedItems v.tree id) := by
  rw [duplicate, listedItems]
  cases valueNode? v.tree id with
  | none => rfl
  | some n =>
      change (if v.tree.kind (v.tree.skipParentheses n) == .arrayInit then _ else _) = _
      rw [Option.map_some]
      dsimp only
      split <;> rfl

/-! ### Clashes and aliases -/

def SameValue (a b : NodeId) : Prop :=
  ∃ x y, v.evaluateNode a = some x ∧ v.evaluateNode b = some y ∧ x.sameValue y = true

theorem sameValue_of_asInt {v : View} {a b : NodeId} {n : Int64}
    (ha : (v.evaluateNode a).bind Literal.asInt = some n)
    (hb : (v.evaluateNode b).bind Literal.asInt = some n) : SameValue v a b := by
  obtain ⟨x, hx, hxn⟩ := Option.bind_eq_some_iff.mp ha
  obtain ⟨y, hy, hyn⟩ := Option.bind_eq_some_iff.mp hb
  refine ⟨x, y, hx, hy, ?_⟩
  rw [Literal.sameValue, hxn, hyn]
  exact beq_self_eq_true n

def fieldNameAt (a : NodeId) : Option String :=
  match v.resolve a with
  | some (.field _ name) => some name
  | _ => none

/-- The items are written differently, but resolve to fields of one name. -/
def AreAliases (a b : NodeId) : Prop :=
  (v.tree.sourceText a).getD "" ≠ (v.tree.sourceText b).getD "" ∧
    ∃ name, fieldNameAt v a = some name ∧ fieldNameAt v b = some name

variable (items : List NodeId)

def ClashAt (i j : Nat) : Prop :=
  i < j ∧ ∃ a b, items[i]? = some a ∧ items[j]? = some b ∧ SameValue v a b

def AliasesAt (i j : Nat) : Prop :=
  ∃ a b, items[i]? = some a ∧ items[j]? = some b ∧ AreAliases v a b

/-- Two items have the same value and are not merely aliases. -/
def Overlaps : Prop := ∃ i j, ClashAt v items i j ∧ ¬AliasesAt v items i j

/-- `j` is the first place with the value of an earlier one, and `i` the first of
these. -/
structure IsFirstClash (i j : Nat) : Prop where
  clash : ClashAt v items i j
  second : ∀ i' j', ClashAt v items i' j' → j ≤ j'
  first : ∀ i', ClashAt v items i' j → i ≤ i'

variable {v items}

theorem IsFirstClash.unique {i j i' j' : Nat} (h : IsFirstClash v items i j)
    (h' : IsFirstClash v items i' j') : i = i' ∧ j = j' := by
  have hj : j = j' := Nat.le_antisymm (h.second i' j' h'.clash) (h'.second i j h.clash)
  subst hj
  exact ⟨Nat.le_antisymm (h.first i' h'.clash) (h'.first i h.clash), rfl⟩

theorem aliasesAt_iff {i j : Nat} {a b : NodeId} (ha : items[i]? = some a)
    (hb : items[j]? = some b) : AliasesAt v items i j ↔ AreAliases v a b := by
  constructor
  · rintro ⟨a', b', ha', hb', h⟩
    obtain rfl := Option.some.inj (ha.symm.trans ha')
    obtain rfl := Option.some.inj (hb.symm.trans hb')
    exact h
  · exact fun h => ⟨a, b, ha, hb, h⟩

/-! ### Judging a pair -/

theorem match_resolve_iff {item previous : NodeId} :
    (match v.resolve item, v.resolve previous with
      | some (.field _ a), some (.field _ b) => a == b
      | _, _ => false) = true ↔
      ∃ name, fieldNameAt v previous = some name ∧ fieldNameAt v item = some name := by
  rw [fieldNameAt, fieldNameAt]
  split
  · rename_i hitem hprevious
    rw [hitem, hprevious]
    refine ⟨fun h => ⟨_, rfl, congrArg some (beq_iff_eq.mp h)⟩, ?_⟩
    rintro ⟨name, hb, ha⟩
    exact beq_iff_eq.mpr (Option.some.inj (ha.trans hb.symm))
  · rename_i hnone
    refine iff_of_false Bool.false_ne_true ?_
    rintro ⟨name, hprevious, hitem⟩
    split at hprevious
    · rename_i hfield
      split at hitem
      · exact hnone _ _ _ _ ‹_› hfield
      · cases hitem
    · cases hprevious

/-- A pair is passed over just if it is one of aliases. -/
theorem duplicateOf_eq (item previous : NodeId) (value : Literal) :
    (AreAliases v previous item ∧ duplicateOf v item previous value = none) ∨
    (¬AreAliases v previous item ∧
      ∃ message, duplicateOf v item previous value = some (item, previous, message)) := by
  rw [duplicateOf]
  dsimp only
  split
  · rename_i htext
    exact .inr ⟨fun h => h.1 (beq_iff_eq.mp htext).symm, _, rfl⟩
  · rename_i htext
    have htext := Ne.symm (mt beq_iff_eq.mpr htext)
    rw [AreAliases, and_iff_right htext, ← match_resolve_iff]
    exact (em _).imp (fun h => ⟨h, if_pos h⟩) fun h => ⟨h, _, if_neg h⟩

/-! ### The search -/

variable (v) in
def valued (done : List NodeId) : List (NodeId × Literal) :=
  done.filterMap fun a => (v.evaluateNode a).map (a, ·)

theorem valued_concat (done : List NodeId) (a : NodeId) :
    valued v (done ++ [a]) = valued v done ++ ((v.evaluateNode a).map (a, ·)).toList := by
  rw [valued, List.filterMap_append, valued, List.filterMap_cons, List.filterMap_nil]
  cases v.evaluateNode a <;> rfl

/-- Nothing is found among the items so far. -/
theorem not_clashAt_of_find? {done rest : List NodeId} {item : NodeId} {value : Literal}
    (hvalue : v.evaluateNode item = some value)
    (h : (valued v done).find? (fun e => e.2.sameValue value) = none) (i : Nat) :
    ¬ClashAt v (done ++ item :: rest) i done.length := by
  rintro ⟨hi, a, b, ha, hb, x, y, hx, hy, hsame⟩
  rw [List.getElem?_append_left hi] at ha
  obtain rfl : b = item := by simpa using hb.symm
  obtain rfl := Option.some.inj (hvalue.symm.trans hy)
  have hmem : (a, x) ∈ valued v done :=
    List.mem_filterMap.mpr ⟨a, List.mem_of_getElem? ha, by rw [hx]; rfl⟩
  exact List.find?_eq_none.mp h _ hmem hsame

/-- What is found among the items so far is the first item with the value. -/
theorem clashAt_of_find? (rest : List NodeId) {done : List NodeId} {item previous : NodeId}
    {value s : Literal} (hvalue : v.evaluateNode item = some value)
    (h : (valued v done).find? (fun e => e.2.sameValue value) = some (previous, s)) :
    ∃ i, done[i]? = some previous ∧ ClashAt v (done ++ item :: rest) i done.length ∧
      ∀ i', ClashAt v (done ++ item :: rest) i' done.length → i ≤ i' := by
  rw [valued, List.find?_filterMap] at h
  obtain ⟨a, hfind, ha⟩ := Option.bind_eq_some_iff.mp h
  obtain ⟨x, hx, hpair⟩ := Option.map_eq_some_iff.mp ha
  cases hpair
  obtain ⟨hany, i, hi, rfl, hbefore⟩ := List.find?_eq_some_iff_getElem.mp hfind
  have hitem : (done ++ item :: rest)[done.length]? = some item := by simp
  refine ⟨i, List.getElem?_eq_getElem hi, ⟨hi, _, item, ?_, hitem, s, value, hx, hvalue, ?_⟩, ?_⟩
  · rw [List.getElem?_append_left hi, List.getElem?_eq_getElem hi]
  · simpa [hx] using hany
  · rintro i' ⟨hi', a, b, ha, hb, x, y, hx', hy, hsame⟩
    obtain rfl := Option.some.inj (hitem.symm.trans hb)
    obtain rfl := Option.some.inj (hvalue.symm.trans hy)
    rw [List.getElem?_append_left hi', List.getElem?_eq_getElem hi'] at ha
    cases ha
    by_contra hlt
    have hnot := hbefore i' (Nat.lt_of_not_le hlt)
    simp [hx', hsame] at hnot

/-- The search, when the items so far have values of their own: it goes to the
first clash, if there is one, and judges it. -/
theorem firstDuplicate_valued (done rest : List NodeId)
    (h : ∀ i j, ClashAt v (done ++ rest) i j → done.length ≤ j) :
    (firstDuplicate v (valued v done) rest = none ∧ ∀ i j, ¬ClashAt v (done ++ rest) i j) ∨
    ∃ i j a b value, IsFirstClash v (done ++ rest) i j ∧ (done ++ rest)[i]? = some a ∧
      (done ++ rest)[j]? = some b ∧
      firstDuplicate v (valued v done) rest = duplicateOf v b a value := by
  induction rest generalizing done with
  | nil =>
      refine .inl ⟨rfl, fun i j hclash => ?_⟩
      have hj := h i j hclash
      obtain ⟨-, a, b, -, hb, -⟩ := hclash
      rw [List.append_nil, List.getElem?_eq_none hj] at hb
      cases hb
  | cons item rest ih =>
      -- an item that clashes with none before it joins them
      have hjoin : (∀ i, ¬ClashAt v (done ++ item :: rest) i done.length) →
          ∀ i j, ClashAt v (done ++ [item] ++ rest) i j → (done ++ [item]).length ≤ j := by
        intro hnone i j hclash
        rw [List.append_assoc] at hclash
        rw [List.length_append]
        refine Nat.lt_of_le_of_ne (h i j hclash) ?_
        rintro rfl
        exact hnone i hclash
      rw [firstDuplicate]
      cases hvalue : v.evaluateNode item with
      | none =>
          have hnone : ∀ i, ¬ClashAt v (done ++ item :: rest) i done.length := by
            rintro i ⟨-, a, b, -, hb, x, y, -, hy, -⟩
            obtain rfl : b = item := by simpa using hb.symm
            cases hvalue.symm.trans hy
          have hrest := ih _ (hjoin hnone)
          rw [valued_concat, hvalue] at hrest
          simpa using hrest
      | some value =>
          dsimp only
          cases hfind : (valued v done).find? (fun e => e.2.sameValue value) with
          | none =>
              have hrest := ih _ (hjoin (not_clashAt_of_find? hvalue hfind))
              rw [valued_concat, hvalue] at hrest
              simpa using hrest
          | some found =>
              obtain ⟨previous, s⟩ := found
              obtain ⟨i, hprevious, hclash, hfirst⟩ := clashAt_of_find? rest hvalue hfind
              refine .inr ⟨i, done.length, previous, item, value, ⟨hclash, h, hfirst⟩, ?_, ?_, rfl⟩
              · rw [List.getElem?_append_left hclash.1]
                exact hprevious
              · simp

variable (v)

/-- The first clash decides. -/
theorem duplicate_cases (id : NodeId) :
    (duplicate v id = none ∧ ∀ i j, ¬ClashAt v (listedItems v.tree id) i j) ∨
    ∃ i j a b, IsFirstClash v (listedItems v.tree id) i j ∧
      (listedItems v.tree id)[i]? = some a ∧ (listedItems v.tree id)[j]? = some b ∧
      ((AliasesAt v (listedItems v.tree id) i j ∧ duplicate v id = none) ∨
        (¬AliasesAt v (listedItems v.tree id) i j ∧
          ∃ message, duplicate v id = some (b, a, message))) := by
  rw [duplicate_eq_firstDuplicate]
  rcases firstDuplicate_valued (v := v) [] (listedItems v.tree id)
    (fun _ _ _ => Nat.zero_le _) with hnone | ⟨i, j, a, b, value, hclash, ha, hb, heq⟩
  · exact .inl hnone
  · refine .inr ⟨i, j, a, b, hclash, ha, hb, ?_⟩
    rw [List.nil_append] at ha hb
    rw [aliasesAt_iff ha hb, show firstDuplicate v [] _ = _ from heq]
    exact duplicateOf_eq b a value

/-- The search for repeated values is complete for an annotation: it reports just
if two of its items overlap. -/
def FindsOverlaps (id : NodeId) : Prop :=
  (duplicate v id).isSome ↔ Overlaps v (listedItems v.tree id)

/-- A report is made just if the first clash is not one of aliases, and it names
this clash. So the search is complete unless the first clash is one of aliases
and others overlap. -/
theorem duplicate_findsOverlaps_iff (id : NodeId) :
    (FindsOverlaps v id ↔ (Overlaps v (listedItems v.tree id) →
      ∃ i j, IsFirstClash v (listedItems v.tree id) i j ∧
        ¬AliasesAt v (listedItems v.tree id) i j)) ∧
    ∀ item previous, (∃ message, duplicate v id = some (item, previous, message)) ↔
      ∃ i j, IsFirstClash v (listedItems v.tree id) i j ∧
        ¬AliasesAt v (listedItems v.tree id) i j ∧
        (listedItems v.tree id)[i]? = some previous ∧ (listedItems v.tree id)[j]? = some item := by
  have hreport : ∀ item previous, (∃ message, duplicate v id = some (item, previous, message)) ↔
      ∃ i j, IsFirstClash v (listedItems v.tree id) i j ∧
        ¬AliasesAt v (listedItems v.tree id) i j ∧
        (listedItems v.tree id)[i]? = some previous ∧ (listedItems v.tree id)[j]? = some item := by
    intro item previous
    rcases duplicate_cases v id with ⟨hnone, hfree⟩ | ⟨i, j, a, b, hclash, ha, hb, hjudged⟩
    · rw [hnone]
      exact iff_of_false nofun fun ⟨i, j, hclash, _⟩ => hfree i j hclash.clash
    · rcases hjudged with ⟨haliases, hnone⟩ | ⟨hnot, message, hsome⟩
      · rw [hnone]
        refine iff_of_false nofun ?_
        rintro ⟨i', j', hclash', hnot, -⟩
        obtain ⟨rfl, rfl⟩ := hclash.unique hclash'
        exact hnot haliases
      · rw [hsome]
        constructor
        · rintro ⟨_, heq⟩
          cases heq
          exact ⟨i, j, hclash, hnot, ha, hb⟩
        · rintro ⟨i', j', hclash', -, ha', hb'⟩
          obtain ⟨rfl, rfl⟩ := hclash.unique hclash'
          cases ha.symm.trans ha'
          cases hb.symm.trans hb'
          exact ⟨message, rfl⟩
  have hsome : (duplicate v id).isSome ↔ ∃ i j, IsFirstClash v (listedItems v.tree id) i j ∧
      ¬AliasesAt v (listedItems v.tree id) i j := by
    constructor
    · intro h
      obtain ⟨⟨item, previous, message⟩, heq⟩ := Option.isSome_iff_exists.mp h
      obtain ⟨i, j, hclash, hnot, -⟩ := (hreport item previous).mp ⟨message, heq⟩
      exact ⟨i, j, hclash, hnot⟩
    · rintro ⟨i, j, hclash, hnot⟩
      obtain ⟨-, a, b, ha, hb, -⟩ := hclash.clash
      obtain ⟨message, heq⟩ := (hreport b a).mpr ⟨i, j, hclash, hnot, ha, hb⟩
      rw [heq]
      rfl
  refine ⟨?_, hreport⟩
  rw [FindsOverlaps, hsome]
  -- what is found overlaps in any case
  exact ⟨fun h => h.mpr, fun h => ⟨fun ⟨i, j, hclash, hnot⟩ => ⟨i, j, hclash.clash, hnot⟩, h⟩⟩

/-! ### A repetition behind an alias -/

def withConstant (name : String) (value : Int32) (b : Builder) : Builder :=
  b.within { kind := .field, name := some name, typeName := some "int",
             modifiers := { isStatic := true, isFinal := true } }
    (·.leaf { kind := .literal, literal := some (.int value) })

/-- A list of a constant, an alias of it, and two more constants of one value. -/
def aliasedList (b : Builder) : Builder :=
  let b := (b.leaf { kind := .reference, stop := 1, name := some "X" }).enter
    { kind := .select, start := 3, stop := 6, name := some "X" }
  let b := ((b.leaf { kind := .reference, start := 3, stop := 4, name := some "B" }).setQualifier
    b.current b.next).leave
  (b.leaf { kind := .reference, start := 8, stop := 9, name := some "Y" }).leaf
    { kind := .reference, start := 11, stop := 12, name := some "Z" }

def aliasedTree : Tree :=
  (Builder.start ⟨"A.java"⟩ .source .javaFile (some "X, B.X, Y, Z") {})
    |>.within { kind := .classDecl, name := some "B" } (withConstant "X" 1)
    |>.within { kind := .classDecl, name := some "A" } (fun b =>
      (((withConstant "Z" 2 ∘ withConstant "Y" 2 ∘ withConstant "X" 1) b).within
        { kind := .annotationUse, name := some "androidx.annotation.IntDef" }
        (·.within { kind := .annotationArgument } (·.within { kind := .arrayInit } aliasedList))))
    |>.build

def aliasedView : View where
  tree := aliasedTree
  symbols := SymbolTable.ofUnits [aliasedTree] []

/-- The constants of one value are not found, because the alias comes first. -/
theorem aliasedView_not_findsOverlaps : ¬FindsOverlaps aliasedView 11 := by
  have hitems : listedItems aliasedView.tree 11 = [14, 15, 17, 18] := by decide +kernel
  have hnone : (duplicate aliasedView 11).isSome = false := by decide +kernel
  have hvalues : (aliasedView.evaluateNode 17).bind Literal.asInt = some 2 ∧
      (aliasedView.evaluateNode 18).bind Literal.asInt = some 2 := by
    decide +kernel
  have hnames : fieldNameAt aliasedView 17 = some "Y" ∧ fieldNameAt aliasedView 18 = some "Z" := by
    decide +kernel
  have hclash : ClashAt aliasedView [14, 15, 17, 18] 2 3 :=
    ⟨by decide, 17, 18, rfl, rfl, sameValue_of_asInt hvalues.1 hvalues.2⟩
  have hnot : ¬AliasesAt aliasedView [14, 15, 17, 18] 2 3 := by
    rw [aliasesAt_iff (a := 17) (b := 18) rfl rfl]
    rintro ⟨-, name, hy, hz⟩
    have hsame := (hnames.1.symm.trans hy).trans (hz.symm.trans hnames.2)
    exact absurd hsame (by decide)
  intro hfinds
  rw [FindsOverlaps, hitems, hnone] at hfinds
  exact Bool.false_ne_true (hfinds.mpr ⟨2, 3, hclash, hnot⟩)

end LintEngine.Rules
