import LintEngine.Proofs.Folding.Integers
import LintEngine.Proofs.Folding.References

/-!
Constants at their declared types. A value that is assigned to a field takes the
type of the field: a field of type `long` holds a `long`, whatever it is
initialized with. Folding does not look at the types of fields. A reference folds
to what the initializer of the field folds to, at the type that this has.

A second way to fold is given here, which brings the value of each field to the
type of the field. The main statement is that all expressions fold alike both
ways just if no reference has a value of another type than the field it comes
from.
-/

namespace LintEngine

open Java

namespace Folding

variable {t : Ty} {x : Value} {l l' : Literal} {i : Integral}

/-! ### Assignment -/

/-- What a variable of a type holds after an assignment of a constant. A number
that is not `long` can be assigned to any type that has it, and a `long` only to
its own type. -/
def assign? (t : Ty) (l : Literal) : Option Literal :=
  (Integral.ofLiteral? l).bind fun i =>
    if (i.type = .int ∨ t = .long) ∧ t.convert (.number i.number) = .number i.number then
      cast t.name l
    else none

theorem exists_represents (h : Integral.ofLiteral? l = some i) :
    ∃ s, Represents s (.number i.number) l := by
  cases l with
  | int v =>
      obtain rfl := Option.some.inj h
      exact ⟨.int, .int v⟩
  | long v =>
      obtain rfl := Option.some.inj h
      exact ⟨.long, .long v⟩
  | char c =>
      rcases (Represents.char c).truth_or_promotes with ⟨b, -, -, hbool⟩ | ⟨j, hj⟩
      · cases hbool
      · obtain rfl := Option.some.inj (h.symm.trans hj.operand)
        exact ⟨.char, hj.value ▸ .char c⟩
  | float _ | bool _ | str _ | null => cases h

theorem Represents.eq_number (h : Represents t x l) (hi : Integral.ofLiteral? l = some i) :
    x = .number i.number := by
  rcases h.truth_or_promotes with ⟨b, rfl, rfl, rfl⟩ | ⟨j, hj⟩
  · cases hi
  · obtain rfl := Option.some.inj (hi.symm.trans hj.operand)
    exact hj.value

theorem Represents.unique (h : Represents t x l) (h' : Represents t x l') : l = l' := by
  cases h with
  | byte v | short v | int v =>
      generalize hx : Value.number v.toInt = x at h'
      obtain ⟨w⟩ := h'
      rw [Int32.toInt_inj.mp (Value.number.inj hx)]
  | long v =>
      generalize hx : Value.number v.toInt = x at h'
      obtain ⟨w⟩ := h'
      rw [Int64.toInt_inj.mp (Value.number.inj hx)]
  | char c =>
      generalize hx : Value.number c.toNat = x at h'
      obtain ⟨d⟩ := h'
      rw [Char.toNat_inj.mp (Int.ofNat.inj (Value.number.inj hx))]
  | boolean b =>
      generalize hx : Value.truth b = x at h'
      obtain ⟨b'⟩ := h'
      rw [Value.truth.inj hx]

/-- An assignment keeps the number and gives it the type of the variable. -/
theorem represents_of_assign? (hi : Integral.ofLiteral? l = some i) (h : assign? t l = some l') :
    Represents t (.number i.number) l' := by
  rw [assign?, hi, Option.bind_some] at h
  split at h
  · rename_i hrange
    obtain ⟨s, hs⟩ := exists_represents hi
    have hcast := cast_answers hs t
    rw [h, hrange.2] at hcast
    generalize htype : s.cast? t = type at hcast
    generalize (t == .char && _) = fault at hcast
    cases hcast with
    | holds hl =>
        have htarget := (Option.ite_none_right_eq_some.mp htype).2
        rw [Option.some.inj htarget]
        exact hl
  · cases h

/-- An assignment changes nothing just if the literal already has the type of the
variable. -/
theorem assign?_eq_self_iff (h : assign? t l = some l') : l' = l ↔ ∃ x, Represents t x l := by
  obtain ⟨i, hi, -⟩ := Option.bind_eq_some_iff.mp h
  have hl' := represents_of_assign? hi h
  constructor
  · rintro rfl
    exact ⟨_, hl'⟩
  · rintro ⟨x, hx⟩
    rw [hx.eq_number hi] at hx
    exact hl'.unique hx

end Folding

open Folding

def FieldSymbol.declaredType? (f : FieldSymbol) : Option Ty :=
  [Ty.long, .int, .short, .byte, .char].find? fun t => f.typeName == some t.name

/-- What a field holds that is initialized with a constant. A field of another type
is taken to hold the constant itself, and so is one that cannot. -/
def FieldSymbol.held (f : FieldSymbol) (l : Literal) : Literal :=
  (f.declaredType?.bind (assign? · l)).getD l

def FieldSymbol.Fits (f : FieldSymbol) (l : Literal) : Prop :=
  ∀ t l', f.declaredType? = some t → assign? t l = some l' → ∃ x, Represents t x l

theorem FieldSymbol.held_eq_self_iff (f : FieldSymbol) (l : Literal) : f.held l = l ↔ f.Fits l := by
  rw [held]
  cases h : f.declaredType?.bind (assign? · l) with
  | none =>
      refine iff_of_true rfl fun t l' ht hassign => ?_
      rw [ht, Option.bind_some, hassign] at h
      cases h
  | some held =>
      obtain ⟨t, ht, hassign⟩ := Option.bind_eq_some_iff.mp h
      rw [Option.getD_some, assign?_eq_self_iff hassign]
      constructor
      · intro hfits t' l' ht' _
        obtain rfl := Option.some.inj (ht.symm.trans ht')
        exact hfits
      · exact fun hfits => hfits t held ht hassign

namespace View

variable (v : View)

/-! ### Folding at declared types -/

def chosen (condition yes no : Option Literal) : Option Literal :=
  match condition.bind Literal.asBool with
  | some true => yes
  | some false => no
  | none => do
    let yes ← yes
    let no ← no
    if yes == no then some yes else none

theorem fold_conditional (depth : Nat) (scope : EvalScope) (k yes no : Expr) :
    v.fold (depth + 1) scope (.conditional k yes no) =
      chosen (v.fold depth scope k) (v.fold depth scope yes) (v.fold depth scope no) :=
  rfl

/-- Folds an expression in a class with at most `depth` levels. Where a field is
met, its value is brought to the type of the field. -/
def foldDeclared : Nat → String → Expr → Option Literal
  | 0, _, _ => none
  | depth + 1, c, e => match e with
    | .literal l => some l
    | .reference q x => (v.candidates c q x).findSome? fun p =>
        if isConstantField p.1 p.2 then
          (p.2.initializer.bind (foldDeclared depth p.1.name)).map p.2.held
        else none
    | .unary op x => (foldDeclared depth c x).bind (Folding.unary op)
    | .binary op l r => do
      let l ← foldDeclared depth c l
      let r ← foldDeclared depth c r
      Folding.binary op l r
    | .conditional k yes no =>
      chosen (foldDeclared depth c k) (foldDeclared depth c yes) (foldDeclared depth c no)
    | .cast type x => (foldDeclared depth c x).bind (Folding.cast type)
    | .array _ | .unknown => none

def evaluateDeclared (e : Expr) (c : String) : Option Literal := v.foldDeclared maxDepth c e

/-- A reference has its value from a field: the first one that has a value of those
that the reference can mean. -/
def TakesFrom (depth : Nat) (c : String) (q : Option String) (x : String)
    (p : ClassSymbol × FieldSymbol) (l : Literal) : Prop :=
  (v.candidates c q x).find? (fun p => (v.fieldValue depth p).isSome) = some p ∧
    v.fieldValue depth p = some l

/-- Every value that a reference has from a field is one of the type of the
field. -/
def KeepsDeclaredTypes : Prop :=
  ∀ depth < maxDepth, ∀ c q x p l, v.TakesFrom depth c q x p l → p.2.Fits l

variable {v} {depth : Nat} {c x : String} {q : Option String}

theorem findSome?_eq_find?_bind {α β : Type} (l : List α) (g : α → Option β) :
    l.findSome? g = (l.find? fun a => (g a).isSome).bind g := by
  induction l with
  | nil => rfl
  | cons a l ih =>
      rw [List.findSome?_cons, List.find?_cons]
      cases h : g a with
      | none => exact ih
      | some b => exact h.symm

section

variable (hdepth : ∀ c e, v.fold depth (.inClass c) e = v.foldDeclared depth c e)

include hdepth

theorem foldDeclared_reference (c : String) (q : Option String) (x : String) :
    v.foldDeclared (depth + 1) c (.reference q x) =
      ((v.candidates c q x).find? fun p => (v.fieldValue depth p).isSome).bind fun p =>
        (v.fieldValue depth p).map p.2.held := by
  have hvalue : (fun p : ClassSymbol × FieldSymbol =>
      if isConstantField p.1 p.2 then
        (p.2.initializer.bind (v.foldDeclared depth p.1.name)).map p.2.held
      else none) = fun p => (v.fieldValue depth p).map p.2.held := by
    funext p
    rw [fieldValue, ← funext (hdepth p.1.name)]
    split <;> rfl
  rw [foldDeclared, hvalue, findSome?_eq_find?_bind]
  simp only [Option.isSome_map]

/-- A reference folds alike both ways just if its value fits the field. -/
theorem fold_reference_eq_iff :
    v.fold (depth + 1) (.inClass c) (.reference q x) =
        v.foldDeclared (depth + 1) c (.reference q x) ↔
      ∀ p l, v.TakesFrom depth c q x p l → p.2.Fits l := by
  rw [fold_reference, findSome?_eq_find?_bind, foldDeclared_reference hdepth]
  simp only [TakesFrom, ← FieldSymbol.held_eq_self_iff]
  cases hfind : (v.candidates c q x).find? fun p => (v.fieldValue depth p).isSome with
  | none => exact iff_of_true rfl fun p l h => nomatch h.1
  | some p =>
      have hsome : (v.fieldValue depth p).isSome :=
        List.find?_some (p := fun p => (v.fieldValue depth p).isSome) hfind
      obtain ⟨l, hl⟩ := Option.isSome_iff_exists.mp hsome
      rw [Option.bind_some, Option.bind_some, hl, Option.map_some, Option.some_inj]
      constructor
      · rintro hheld p' l' ⟨hp, hl'⟩
        obtain rfl := Option.some.inj hp
        obtain rfl := Option.some.inj (hl.symm.trans hl')
        exact hheld.symm
      · exact fun hheld => (hheld p l ⟨rfl, hl⟩).symm

/-- With one level more, everything folds alike if references do. -/
theorem fold_eq_foldDeclared_succ
    (hreferences : ∀ c q x p l, v.TakesFrom depth c q x p l → p.2.Fits l) (c : String) (e : Expr) :
    v.fold (depth + 1) (.inClass c) e = v.foldDeclared (depth + 1) c e := by
  cases e with
  | literal l => rfl
  | reference q x => exact (fold_reference_eq_iff hdepth).mpr (hreferences c q x)
  | unary op x => simp only [fold, foldDeclared, hdepth]
  | binary op l r => simp only [fold, foldDeclared, hdepth]
  | conditional k yes no => rw [fold_conditional, foldDeclared, hdepth, hdepth, hdepth]
  | cast type x => simp only [fold, foldDeclared, hdepth]
  | array items => rfl
  | unknown => rfl

end

theorem KeepsDeclaredTypes.fold_eq (h : v.KeepsDeclaredTypes) (hdepth : depth ≤ maxDepth)
    (c : String) (e : Expr) : v.fold depth (.inClass c) e = v.foldDeclared depth c e := by
  induction depth generalizing c e with
  | zero => rfl
  | succ depth ih =>
      exact fold_eq_foldDeclared_succ (ih (Nat.le_of_succ_le hdepth)) (h depth hdepth) c e

/-! ### Levels -/

def nest : Nat → Expr → Expr
  | 0, e => e
  | n + 1, e => .conditional (.literal (.bool true)) (nest n e) .unknown

theorem fold_nest (n : Nat) (scope : EvalScope) (e : Expr) :
    v.fold (n + depth) scope (nest n e) = v.fold depth scope e := by
  induction n with
  | zero => rw [Nat.zero_add, nest]
  | succ n ih =>
      rw [Nat.succ_add, nest, ← ih]
      cases n + depth <;> rfl

theorem foldDeclared_nest (n : Nat) (c : String) (e : Expr) :
    v.foldDeclared (n + depth) c (nest n e) = v.foldDeclared depth c e := by
  induction n with
  | zero => rw [Nat.zero_add, nest]
  | succ n ih =>
      rw [Nat.succ_add, nest, ← ih]
      cases n + depth <;> rfl

/-! ### The declared types of constants -/

/-- All expressions in classes fold as if each constant had the type that it is
declared with, just if each constant that a reference meets has that type
anyway. -/
theorem evaluate_eq_evaluateDeclared_iff :
    (∀ c e, v.evaluate e (.inClass c) = v.evaluateDeclared e c) ↔ v.KeepsDeclaredTypes := by
  constructor
  · intro h depth hdepth c q x
    -- an expression that is nested deep enough is folded with any smaller number of levels
    have hlevels : ∀ d ≤ maxDepth, ∀ c e, v.fold d (.inClass c) e = v.foldDeclared d c e := by
      intro d hd c e
      obtain ⟨n, hn⟩ := Nat.exists_eq_add_of_le' hd
      have hnest := h c (nest n e)
      rw [evaluate, evaluateDeclared, hn, fold_nest, foldDeclared_nest] at hnest
      exact hnest
    exact (fold_reference_eq_iff (hlevels depth (Nat.le_of_lt hdepth))).mp
      (hlevels (depth + 1) hdepth c (.reference q x))
  · exact fun h c e => h.fold_eq (Nat.le_refl maxDepth) c e

/-! ### A shifted constant -/

/-- A class with two constants of type `long`. The second one is the first one,
shifted by 40 places. -/
def shifted (one : Literal) : ClassSymbol :=
  { ClassSymbol.compiled "A" .plain with
    fields := [
      { name := "ONE", typeName := some "long", modifiers := { isFinal := true },
        initializer := some (.literal one) },
      { name := "BIG", typeName := some "long", modifiers := { isFinal := true },
        initializer := some (.binary "<<" (.reference none "ONE") (.literal (.int 40))) }] }

def shiftedView (one : Literal) : View := ofClasses [shifted one]

def shiftedValue (value : Expr → Option Literal) : Option (String × Option Int64) :=
  (value (.reference none "BIG")).map fun l => (l.typeName, l.asInt)

/-- Where the first constant is written as a `long`, the declared types are kept. -/
theorem shiftedView_keepsDeclaredTypes :
    (∀ c e, (shiftedView (.long 1)).evaluate e (.inClass c) =
        (shiftedView (.long 1)).evaluateDeclared e c) ∧
      shiftedValue ((shiftedView (.long 1)).evaluate · (.inClass "A")) =
        some ("long", some 1099511627776) := by
  have hfields : ∀ owner ∈ (shiftedView (.long 1)).symbols.classes, ∀ f ∈ owner.fields,
      f.declaredType? = some .long ∧ ∀ depth < maxDepth,
        ((shiftedView (.long 1)).fieldValue depth (owner, f)).all (·.typeName == "long") := by
    decide +kernel
  refine ⟨evaluate_eq_evaluateDeclared_iff.mpr ?_, by decide +kernel⟩
  rintro depth hdepth c q x ⟨owner, f⟩ l ⟨hfirst, hl⟩ t - ht -
  obtain ⟨howner, hf⟩ := of_mem_candidates (List.mem_of_find?_eq_some hfirst)
  obtain ⟨htype, hvalues⟩ := hfields owner (SymbolTable.mem_of_class? howner) f
    (List.mem_of_find?_eq_some hf)
  obtain rfl := Option.some.inj (htype.symm.trans ht)
  have hlong := hvalues depth hdepth
  rw [hl, Option.all_some] at hlong
  cases l with
  | long n => exact ⟨_, .long n⟩
  | int _ | float _ | bool _ | char _ | str _ | null => simp [Literal.typeName] at hlong

/-- Where it is written as an `int`, the shift is one of 32 bits, by 8 places. -/
theorem shiftedView_not_keepsDeclaredTypes :
    shiftedValue ((shiftedView (.int 1)).evaluate · (.inClass "A")) = some ("int", some 256) ∧
      shiftedValue ((shiftedView (.int 1)).evaluateDeclared · "A") =
        some ("long", some 1099511627776) ∧
      ¬∀ c e, (shiftedView (.int 1)).evaluate e (.inClass c) =
        (shiftedView (.int 1)).evaluateDeclared e c := by
  have hfolded : shiftedValue ((shiftedView (.int 1)).evaluate · (.inClass "A")) =
      some ("int", some 256) := by
    decide +kernel
  have hdeclared : shiftedValue ((shiftedView (.int 1)).evaluateDeclared · "A") =
      some ("long", some 1099511627776) := by
    decide +kernel
  refine ⟨hfolded, hdeclared, fun h => ?_⟩
  rw [funext fun e => h "A" e, hdeclared] at hfolded
  exact absurd hfolded (by decide)

end View

end LintEngine
