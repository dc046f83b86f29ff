import LintEngine.Folding.Constant
import LintEngine.Proofs.Symbols.Outward
import LintEngine.Tree.Builder

/-!
What a reference in a class folds to. A name that a class has or inherits, or a
class around it, means that field and no other. Any other name can mean a field
of each class that it is imported from, and the reference names the first of
them. Folding also starts with the first one, but where that one has no value it
goes on to the next.

The main statement is that a reference has the value of the field that it names
just if folding does not go on, and that only imported names can make it do so.
-/

namespace LintEngine.View

variable (v : View)

def candidates (c : String) (q : Option String) (x : String) : List (ClassSymbol × FieldSymbol) :=
  v.fieldCandidates (v.scopeClass (.inClass c)) q x

/-- The field of a name that a class has or inherits, or else a class around
it. -/
def member? (c x : String) : Option (ClassSymbol × FieldSymbol) :=
  (v.symbols.lexicalScopes (v.scopeClass (.inClass c))).findSome? fun o => v.symbols.findField o x

def fieldValue (depth : Nat) (p : ClassSymbol × FieldSymbol) : Option Literal :=
  if isConstantField p.1 p.2 then p.2.initializer.bind (v.fold depth (.inClass p.1.name)) else none

def Names (c : String) (q : Option String) (x : String) (owner : ClassSymbol)
    (f : FieldSymbol) : Prop :=
  ∃ o n, v.resolveField (.reference q x) (.inClass c) = some (.field o n) ∧
    v.symbols.class? o = some owner ∧ owner.field? n = some f

/-- The first field that a reference can mean has no value, and another one has. -/
def Skips (depth : Nat) (c : String) (q : Option String) (x : String) : Prop :=
  ∃ first others, v.candidates c q x = first :: others ∧ v.fieldValue depth first = none ∧
    ∃ other ∈ others, (v.fieldValue depth other).isSome

/-- Folding an expression takes no more than so many levels, whatever it meets on
the way. -/
def Settles : Nat → String → Expr → Prop
  | 0, _, _ => False
  | depth + 1, c, e => match e with
    | .reference q x => ∀ p ∈ v.candidates c q x, isConstantField p.1 p.2 →
        ∀ i ∈ p.2.initializer, Settles depth p.1.name i
    | .unary _ x | .cast _ x => Settles depth c x
    | .binary _ l r => Settles depth c l ∧ Settles depth c r
    | .conditional k yes no => Settles depth c k ∧ Settles depth c yes ∧ Settles depth c no
    | .literal _ | .array _ | .unknown => True

variable {v} {depth : Nat} {c x : String} {q : Option String} {owner : ClassSymbol}
  {f : FieldSymbol} {e : Expr}

/-! ### Candidates -/

theorem candidates_qualified (c q x : String) : v.candidates c (some q) x =
    ((v.symbols.qualify (v.importsOf (v.scopeClass (.inClass c)))
      (v.scopeClass (.inClass c)) q).bind fun o => v.symbols.findField o x).toList :=
  rfl

theorem candidates_member {p : ClassSymbol × FieldSymbol} (h : v.member? c x = some p) :
    v.candidates c none x = [p] := by
  rw [member?] at h
  simp only [candidates, fieldCandidates, SymbolTable.askScopes_eq_findSome?, h]

theorem candidates_imported (h : v.member? c x = none) : v.candidates c none x =
    (v.importsOf (v.scopeClass (.inClass c))).static.filterMap fun path =>
      (staticOwner x path).bind fun o => v.symbols.findField o x := by
  rw [member?] at h
  simp only [candidates, fieldCandidates, SymbolTable.askScopes_eq_findSome?, h]

theorem exists_findField_of_mem {p : ClassSymbol × FieldSymbol} (h : p ∈ v.candidates c q x) :
    ∃ o, v.symbols.findField o x = some p := by
  cases q with
  | some q =>
      rw [candidates_qualified, Option.mem_toList] at h
      obtain ⟨o, -, hfound⟩ := Option.bind_eq_some_iff.mp h
      exact ⟨o, hfound⟩
  | none =>
      cases hmember : v.member? c x with
      | some found =>
          rw [candidates_member hmember] at h
          obtain rfl := List.mem_singleton.mp h
          obtain ⟨o, -, hfound⟩ := List.exists_of_findSome?_eq_some hmember
          exact ⟨o, hfound⟩
      | none =>
          rw [candidates_imported hmember] at h
          obtain ⟨path, -, himport⟩ := List.mem_filterMap.mp h
          obtain ⟨o, -, hfound⟩ := Option.bind_eq_some_iff.mp himport
          exact ⟨o, hfound⟩

/-- The table knows a field that a reference can mean, and the class that has it,
under their names. -/
theorem of_mem_candidates (h : (owner, f) ∈ v.candidates c q x) :
    v.symbols.class? owner.name = some owner ∧ owner.field? f.name = some f := by
  obtain ⟨o, hfound⟩ := exists_findField_of_mem h
  obtain ⟨howner, hfield⟩ := SymbolTable.of_findField hfound
  have hname : f.name = x :=
    beq_iff_eq.mp (List.find?_some (p := fun f : FieldSymbol => f.name == x) hfield)
  exact ⟨howner, hname ▸ hfield⟩

/-- A reference names the first of the fields that it can mean. -/
theorem names_iff : v.Names c q x owner f ↔ (v.candidates c q x).head? = some (owner, f) := by
  have hresolve : v.resolveField (.reference q x) (.inClass c) =
      (v.candidates c q x).head?.map fun p => .field p.1.name p.2.name := rfl
  rw [Names, hresolve]
  constructor
  · rintro ⟨o, n, hfirst, howner, hfield⟩
    obtain ⟨p, hp, hnames⟩ := Option.map_eq_some_iff.mp hfirst
    obtain ⟨rfl, rfl⟩ := Declaration.field.inj hnames
    obtain ⟨howner', hfield'⟩ := of_mem_candidates (List.mem_of_mem_head? hp)
    obtain rfl := Option.some.inj (howner.symm.trans howner')
    obtain rfl := Option.some.inj (hfield.symm.trans hfield')
    exact hp
  · intro hfirst
    obtain ⟨howner, hfield⟩ := of_mem_candidates (List.mem_of_mem_head? hfirst)
    exact ⟨owner.name, f.name, by rw [hfirst]; rfl, howner, hfield⟩

/-- Only a name that is imported can mean more than one field. -/
theorem Skips.imported (h : v.Skips depth c q x) : q = none ∧ v.member? c x = none := by
  obtain ⟨first, others, hcandidates, -, other, hother, -⟩ := h
  have hlength : 1 < (v.candidates c q x).length := by
    rw [hcandidates, List.length_cons]
    exact Nat.succ_lt_succ (List.length_pos_of_mem hother)
  cases q with
  | some q =>
      rw [candidates_qualified] at hlength
      exact absurd hlength (Nat.not_lt.mpr Option.length_toList_le)
  | none =>
      refine ⟨rfl, ?_⟩
      cases hmember : v.member? c x with
      | none => rfl
      | some found =>
          rw [candidates_member hmember] at hlength
          exact absurd hlength (Nat.lt_irrefl 1)

/-! ### Values -/

theorem fold_reference : v.fold (depth + 1) (.inClass c) (.reference q x) =
    (v.candidates c q x).findSome? (v.fieldValue depth) := by
  simp only [fold]
  rfl

/-- A reference that skips no field has the value of the field that it names. -/
theorem fold_of_not_skips (h : ¬v.Skips depth c q x) :
    v.fold (depth + 1) (.inClass c) (.reference q x) =
      (v.candidates c q x).head?.bind (v.fieldValue depth) := by
  rw [fold_reference]
  cases hcandidates : v.candidates c q x with
  | nil => rfl
  | cons first others =>
      rw [List.findSome?_cons, List.head?_cons, Option.bind_some]
      cases hfirst : v.fieldValue depth first with
      | some l => rfl
      | none =>
          refine List.findSome?_eq_none_iff.mpr fun other hother => ?_
          rw [← Option.not_isSome_iff_eq_none]
          exact fun hvalue => h ⟨first, others, hcandidates, hfirst, other, hother, hvalue⟩

theorem Skips.exists_value (h : v.Skips depth c q x) :
    ∃ owner f l, v.Names c q x owner f ∧ v.fieldValue depth (owner, f) = none ∧
      v.fold (depth + 1) (.inClass c) (.reference q x) = some l := by
  obtain ⟨first, others, hcandidates, hfirst, other, hother, hvalue⟩ := h
  have hsome : ((v.candidates c q x).findSome? (v.fieldValue depth)).isSome :=
    List.findSome?_isSome_iff.mpr ⟨other, hcandidates ▸ List.mem_cons_of_mem _ hother, hvalue⟩
  obtain ⟨l, hl⟩ := Option.isSome_iff_exists.mp hsome
  exact ⟨first.1, first.2, l, names_iff.mpr (by rw [hcandidates]; rfl), hfirst,
    fold_reference.trans hl⟩

/-! ### Levels -/

/-- More levels than are needed change nothing. -/
theorem fold_of_settles (h : v.Settles depth c e) {d : Nat} (hd : depth ≤ d) :
    v.fold d (.inClass c) e = v.fold depth (.inClass c) e := by
  induction depth generalizing d c e with
  | zero => exact h.elim
  | succ depth ih =>
      obtain ⟨d, rfl⟩ := Nat.exists_eq_add_of_le' (Nat.le_trans (Nat.le_add_left 1 depth) hd)
      have hd := Nat.le_of_succ_le_succ hd
      cases e with
      | literal l => rfl
      | reference q x =>
          rw [fold_reference, fold_reference, ← List.head?_filterMap, ← List.head?_filterMap]
          refine congrArg List.head? (List.filterMap_congr fun p hp => ?_)
          unfold fieldValue
          split
          · rename_i hconstant
            exact Option.bind_congr fun i hi => ih (h p hp hconstant i hi) hd
          · rfl
      | unary op x => simp only [fold, ih h hd]
      | binary op l r => simp only [fold, ih h.1 hd, ih h.2 hd]
      | conditional k yes no => simp only [fold, ih h.1 hd, ih h.2.1 hd, ih h.2.2 hd]
      | cast type x => simp only [fold, ih h hd]
      | array items => rfl
      | unknown => rfl

/-! ### The value of a reference -/

variable (v) in
/-- A reference has the value of the field that it names: folding the initializer
of the field, where it is declared, gives the same. One level is left less for
that, which makes no difference to an initializer that does not need them all. A
field that can change has no value. -/
structure IsFaithful (c : String) (q : Option String) (x : String) : Prop where
  value : ∀ l, v.evaluate (.reference q x) (.inClass c) = some l →
    ∃ owner f e, v.Names c q x owner f ∧ f.initializer = some e ∧
      v.fold (maxDepth - 1) (.inClass owner.name) e = some l ∧
      (v.Settles (maxDepth - 1) owner.name e → v.evaluate e (.inClass owner.name) = some l)
  changing : ∀ owner f, v.Names c q x owner f → f.modifiers.isFinal = false →
    owner.kind ≠ .interface → v.evaluate (.reference q x) (.inClass c) = none

theorem isConstantField_eq_false_iff :
    isConstantField owner f = false ↔ f.modifiers.isFinal = false ∧ owner.kind ≠ .interface := by
  rw [isConstantField, Bool.or_eq_false_iff, beq_eq_false_iff_ne]

theorem fieldValue_eq_some_iff {l : Literal} : v.fieldValue depth (owner, f) = some l ↔
    isConstantField owner f ∧
      ∃ e, f.initializer = some e ∧ v.fold depth (.inClass owner.name) e = some l := by
  rw [fieldValue, ← Option.bind_eq_some_iff]
  split
  · rename_i hconstant
    exact (and_iff_right hconstant).symm
  · rename_i hconstant
    exact ⟨nofun, fun h => absurd h.1 hconstant⟩

/-- A reference has the value of the field that it names just if it does not skip
that field for another one, which only an imported name can do. -/
theorem isFaithful_iff_not_skips :
    (v.IsFaithful c q x ↔ ¬v.Skips (maxDepth - 1) c q x) ∧
      (v.Skips (maxDepth - 1) c q x → q = none ∧ v.member? c x = none) := by
  have hlevels : v.evaluate (.reference q x) (.inClass c) =
      v.fold (maxDepth - 1 + 1) (.inClass c) (.reference q x) := rfl
  refine ⟨⟨fun hfaithful hskips => ?_, fun hskips => ⟨fun l hl => ?_, ?_⟩⟩, Skips.imported⟩
  · obtain ⟨owner, f, l, hnames, hnone, hl⟩ := hskips.exists_value
    obtain ⟨owner', f', e, hnames', he, hfold, -⟩ := hfaithful.value l hl
    have hsame := (names_iff.mp hnames).symm.trans (names_iff.mp hnames')
    obtain ⟨rfl, rfl⟩ := Prod.mk.inj (Option.some.inj hsame)
    cases hconstant : isConstantField owner f with
    | true =>
        have hvalue := fieldValue_eq_some_iff.mpr ⟨hconstant, e, he, hfold⟩
        cases hnone.symm.trans hvalue
    | false =>
        obtain ⟨hfinal, hkind⟩ := isConstantField_eq_false_iff.mp hconstant
        cases hl.symm.trans (hfaithful.changing owner f hnames hfinal hkind)
  · rw [hlevels, fold_of_not_skips hskips] at hl
    obtain ⟨⟨owner, f⟩, hfirst, hvalue⟩ := Option.bind_eq_some_iff.mp hl
    obtain ⟨-, e, he, hfold⟩ := fieldValue_eq_some_iff.mp hvalue
    exact ⟨owner, f, e, names_iff.mpr hfirst, he, hfold,
      fun hsettles => (fold_of_settles hsettles (Nat.sub_le ..)).trans hfold⟩
  · intro owner f hnames hfinal hkind
    have hconstant := isConstantField_eq_false_iff.mpr ⟨hfinal, hkind⟩
    rw [hlevels, fold_of_not_skips hskips, names_iff.mp hnames, Option.bind_some,
      fieldValue, hconstant, if_neg Bool.false_ne_true]

/-! ### A name imported twice -/

def ofClasses (classes : List ClassSymbol) : View where
  tree := (Builder.start ⟨"A.java"⟩ .source .javaFile none {}).build
  symbols := .ofClasses classes

def exporting (name : String) (isFinal : Bool) (value : Int32) : ClassSymbol :=
  { ClassSymbol.compiled name .plain with
    fields := [{ name := "X", modifiers := { isStatic := true, isFinal },
                 initializer := some (.literal (.int value)) }] }

/-- A class that imports `X` by name from one class and all names of another. -/
def importing : ClassSymbol :=
  { ClassSymbol.compiled "A" .plain with
    imports := { static := ["p.First.X", "q.Second.*"] } }

def importingView (isFinal : Bool) : View :=
  ofClasses [importing, exporting "p.First" isFinal 1, exporting "q.Second" true 2]

theorem importingView_isFaithful :
    (importingView true).IsFaithful "A" none "X" ∧
      ((importingView true).evaluate (.reference none "X") (.inClass "A")).bind Literal.asInt =
        some 1 := by
  have hfirst : (((importingView true).candidates "A" none "X").head?.bind
      ((importingView true).fieldValue (maxDepth - 1))).isSome := by
    decide +kernel
  refine ⟨isFaithful_iff_not_skips.1.mpr ?_, by decide +kernel⟩
  rintro ⟨first, others, hcandidates, hnone, -⟩
  rw [hcandidates, List.head?_cons, Option.bind_some, hnone] at hfirst
  cases hfirst

/-- A field that can change is skipped: the reference names it, and has the value
of the other one. -/
theorem importingView_not_isFaithful :
    (importingView false).resolveField (.reference none "X") (.inClass "A") =
        some (.field "p.First" "X") ∧
      ((importingView false).evaluate (.reference none "X") (.inClass "A")).bind Literal.asInt =
        some 2 ∧
      ¬(importingView false).IsFaithful "A" none "X" := by
  have hresolve : (importingView false).resolveField (.reference none "X") (.inClass "A") =
      some (.field "p.First" "X") := by
    decide +kernel
  have hvalue : ((importingView false).evaluate (.reference none "X") (.inClass "A")).bind
      Literal.asInt = some 2 := by
    decide +kernel
  have hfield : ((importingView false).symbols.class? "p.First").bind (fun owner =>
      (owner.field? "X").map fun f => (f.modifiers.isFinal, owner.kind)) =
        some (false, .plain) := by
    decide +kernel
  refine ⟨hresolve, hvalue, fun hfaithful => ?_⟩
  obtain ⟨owner, howner, hfield⟩ := Option.bind_eq_some_iff.mp hfield
  obtain ⟨f, hf, hvariable⟩ := Option.map_eq_some_iff.mp hfield
  obtain ⟨hfinal, hkind⟩ := Prod.mk.inj hvariable
  have hnone := hfaithful.changing owner f ⟨_, _, hresolve, howner, hf⟩ hfinal
    (by rw [hkind]; decide)
  rw [hnone] at hvalue
  cases hvalue

end LintEngine.View
