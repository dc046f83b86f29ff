import LintEngine.Proofs.Text
import LintEngine.Symbols.TypeName
import Mathlib.Data.List.Basic

/-!
What a simple type name means. Five sources offer a class for it, and the first one
that does decides: the classes around the name and their members from the inside
out, the imports of single types, the package, the packages imported as a whole, and
the names that need no import.

`Means` is this order as a relation, with the classes around a name given by their
simple names. The search walks outward by cutting the last segment off a name, as
long as the rest is longer than the package. Main statement: this meets exactly the
classes and no part of the package, and what a name is qualified to is what it
means; of a dotted name this holds for the first segment.
-/

namespace LintEngine

namespace TypeName

variable {known : String → Bool} {ctx : Imports} {package name x y : String} {r : Option String}
  {k n : Nat}

/-! ### Classes around a name -/

theorem inPackage_of_ne (h : package ≠ "") (x : String) :
    inPackage package x = package ++ "." ++ x := by
  rw [inPackage, if_neg]
  simpa using h

theorem lastField_inPackage (package : String) (h : '.' ∉ x.toList) :
    Text.lastField '.' (inPackage package x) = x := by
  by_cases hempty : package = ""
  · subst hempty
    exact Text.lastField_of_not_mem h
  · rw [inPackage_of_ne hempty]
    exact Text.lastField_append package h

structure IsSize (size : String → Nat) : Prop where
  append : ∀ s t, size (s ++ t) = size s + size t
  pos : ∀ s, s ≠ "" → 0 < size s

theorem isSize_length : IsSize String.length where
  append := String.length_append
  pos _ h := Nat.pos_of_ne_zero (mt String.length_eq_zero_iff.mp h)

theorem isSize_utf8ByteSize : IsSize String.utf8ByteSize where
  append _ _ := String.utf8ByteSize_append
  pos _ h := Nat.pos_of_ne_zero (mt String.utf8ByteSize_eq_zero_iff.mp h)

theorem IsSize.lt_inPackage {size : String → Nat} (hsize : IsSize size) (package : String)
    (h : x ≠ "") : size package < size (inPackage package x) := by
  have hx := hsize.pos x h
  by_cases hempty : package = ""
  · have hzero := hsize.append "" ""
    subst hempty
    change size "" = size "" + size "" at hzero
    change size "" < size x
    omega
  · rw [inPackage_of_ne hempty, hsize.append, hsize.append]
    omega

/-- The simple names of a class and of the classes around it, from the outside in. -/
structure Nest where
  names : List String
  simple : ∀ x ∈ names, x ≠ "" ∧ '.' ∉ x.toList

namespace Nest

variable {nest : Nest}

/-- The name of the class that the first names lead to, `package.A.B` for two of them. -/
def classAt (nest : Nest) (package : String) (k : Nat) : String :=
  (nest.names.take k).foldl inPackage package

def enclosing? (nest : Nest) (package : String) : Option String :=
  if nest.names.isEmpty then none else some (nest.classAt package nest.names.length)

theorem classAt_succ (package : String) (h : nest.names[k]? = some x) :
    nest.classAt package (k + 1) = inPackage (nest.classAt package k) x := by
  rw [classAt, List.take_add_one, h, List.foldl_append]
  rfl

theorem simple_of_getElem? (h : nest.names[k]? = some x) : x ≠ "" ∧ '.' ∉ x.toList :=
  nest.simple x (List.mem_of_getElem? h)

theorem exists_name (hk : k < nest.names.length) : ∃ x, nest.names[k]? = some x :=
  ⟨nest.names[k], List.getElem?_eq_getElem hk⟩

/-- Every name makes the name of a class longer. -/
theorem add_le_classAt {size : String → Nat} (hsize : IsSize size) (package : String)
    (hk : k ≤ nest.names.length) :
    size package + k ≤ size (nest.classAt package k) := by
  induction k with
  | zero => exact Nat.le_refl _
  | succ k ih =>
      obtain ⟨x, hx⟩ := nest.exists_name hk
      have hlt := hsize.lt_inPackage (nest.classAt package k) (simple_of_getElem? hx).1
      have hle := ih (by omega)
      rw [classAt_succ package hx]
      omega

theorem utf8ByteSize_lt_classAt (package : String) (hk : k < nest.names.length) :
    package.utf8ByteSize < (nest.classAt package (k + 1)).utf8ByteSize := by
  have hle : package.utf8ByteSize + (k + 1) ≤ (nest.classAt package (k + 1)).utf8ByteSize :=
    nest.add_le_classAt isSize_utf8ByteSize package hk
  omega

theorem lastField_classAt (package : String) (h : nest.names[k]? = some x) :
    Text.lastField '.' (nest.classAt package (k + 1)) = x := by
  rw [classAt_succ package h]
  exact lastField_inPackage _ (simple_of_getElem? h).2

def outward (nest : Nest) (package : String) (k : Nat) : List String :=
  (List.range k).reverse.map fun i => nest.classAt package (i + 1)

theorem outward_succ (nest : Nest) (package : String) (k : Nat) :
    nest.outward package (k + 1) = nest.classAt package (k + 1) :: nest.outward package k := by
  rw [outward, List.range_succ, List.reverse_append]
  rfl

/-- Cutting off the last segment leads from class to class and ends before the
package. -/
theorem scopesFrom_classAt (hk : k < nest.names.length) (hn : k ≤ n) :
    scopesFrom package n (nest.classAt package (k + 1)) = nest.outward package (k + 1) := by
  induction k generalizing n with
  | zero =>
      obtain ⟨x, hx⟩ := nest.exists_name hk
      have hpoint := (simple_of_getElem? hx).2
      have hclass : nest.classAt package 1 = inPackage package x := classAt_succ package hx
      -- before the outermost class stands the package, which is no longer than itself, or nothing
      have hsplit : Text.splitLast? '.' (nest.classAt package 1) = none ∨
          Text.splitLast? '.' (nest.classAt package 1) = some (package, x) := by
        rw [hclass]
        by_cases hempty : package = ""
        · subst hempty
          exact .inl (Text.splitLast?_of_not_mem hpoint)
        · rw [inPackage_of_ne hempty]
          exact .inr (Text.splitLast?_append package hpoint)
      cases n with
      | zero => rfl
      | succ n =>
          rw [scopesFrom]
          rcases hsplit with hsplit | hsplit <;> rw [hsplit]
          · rfl
          · simp only [Nat.lt_irrefl, if_false]
            rfl
  | succ k ih =>
      obtain ⟨x, hx⟩ := nest.exists_name hk
      have hlonger := nest.utf8ByteSize_lt_classAt package (Nat.lt_of_succ_lt hk)
      have hne : nest.classAt package (k + 1) ≠ "" := by
        intro hempty
        rw [hempty] at hlonger
        exact Nat.not_lt_zero _ hlonger
      have hsplit : Text.splitLast? '.' (nest.classAt package (k + 2)) =
          some (nest.classAt package (k + 1), x) := by
        rw [classAt_succ package hx, inPackage_of_ne hne]
        exact Text.splitLast?_append _ (simple_of_getElem? hx).2
      obtain ⟨n, rfl⟩ : ∃ m, n = m + 1 := Nat.exists_eq_succ_of_ne_zero (by omega)
      rw [scopesFrom, hsplit, outward_succ]
      simp only [hlonger, if_true]
      rw [ih (by omega) (by omega)]

theorem scopes_enclosing? (nest : Nest) (package : String) :
    (nest.enclosing? package).toList.flatMap (scopes package) =
      nest.outward package nest.names.length := by
  rw [enclosing?]
  cases hlength : nest.names.length with
  | zero =>
      rw [List.length_eq_zero_iff.mp hlength]
      rfl
  | succ k =>
      have hsome : nest.names.isEmpty = false := by
        rw [List.isEmpty_eq_false_iff, ← List.length_pos_iff]
        omega
      have hle := nest.add_le_classAt isSize_length package hlength.ge
      simp only [hsome, Bool.false_eq_true, if_false, Option.toList_some, List.flatMap_singleton]
      exact scopesFrom_classAt (by omega) (by omega)

theorem findSome?_outward_eq_some_iff {f : String → Option String} :
    (nest.outward package n).findSome? f = some y ↔
      ∃ k < n, f (nest.classAt package (k + 1)) = some y ∧
        ∀ j < n, k < j → f (nest.classAt package (j + 1)) = none := by
  induction n with
  | zero => simp [outward]
  | succ n ih =>
      rw [outward_succ, List.findSome?_cons]
      cases hn : f (nest.classAt package (n + 1)) with
      | some z =>
          constructor
          · rintro ⟨⟩
            exact ⟨n, Nat.lt_succ_self n, hn, fun j hj hlt => by omega⟩
          · rintro ⟨k, hk, hf, hinner⟩
            rcases Nat.lt_or_eq_of_le (Nat.le_of_lt_succ hk) with hlt | rfl
            · simp [hinner n (Nat.lt_succ_self n) hlt] at hn
            · exact hn.symm.trans hf
      | none =>
          rw [ih]
          constructor
          · rintro ⟨k, hk, hf, hinner⟩
            refine ⟨k, Nat.lt_succ_of_lt hk, hf, fun j hj hlt => ?_⟩
            rcases Nat.lt_or_eq_of_le (Nat.le_of_lt_succ hj) with hj | rfl
            · exact hinner j hj hlt
            · exact hn
          · rintro ⟨k, hk, hf, hinner⟩
            rcases Nat.lt_or_eq_of_le (Nat.le_of_lt_succ hk) with hk | rfl
            · exact ⟨k, hk, hf, fun j hj => hinner j (Nat.lt_succ_of_lt hj)⟩
            · simp [hn] at hf

end Nest

/-! ### The order of the sources -/

def EndsIn (dotted name : String) : Prop := dotted = name ∨ ∃ front, dotted = front ++ "." ++ name

def IsFirst {α : Type} (p : α → Prop) (l : List α) (a : α) : Prop :=
  ∃ before after, l = before ++ a :: after ∧ p a ∧ ∀ b ∈ before, ¬p b

section

variable (known : String → Bool) (ctx : Imports) (nest : Nest) (name : String)

/-- What a class around a name provides for it: the class itself, or else a
member. -/
inductive Provides (k : Nat) : String → Prop
  | itself (hname : nest.names[k]? = some name)
      (hknown : known (nest.classAt ctx.package (k + 1)) = true) :
      Provides k (nest.classAt ctx.package (k + 1))
  | member (hk : k < nest.names.length)
      (hself : ¬(nest.names[k]? = some name ∧ known (nest.classAt ctx.package (k + 1)) = true))
      (hknown : known (nest.classAt ctx.package (k + 1) ++ "." ++ name) = true) :
      Provides k (nest.classAt ctx.package (k + 1) ++ "." ++ name)

inductive Means : Option String → Prop
  | enclosing {k : Nat} {y : String} (hclass : Provides known ctx nest name k y)
      (hinner : ∀ j z, k < j → ¬Provides known ctx nest name j z) : Means (some y)
  | imported {y : String} (hclass : ∀ k z, ¬Provides known ctx nest name k z)
      (himport : IsFirst (EndsIn · name) ctx.single y) : Means (some y)
  | packaged (hclass : ∀ k z, ¬Provides known ctx nest name k z)
      (himport : ∀ i ∈ ctx.single, ¬EndsIn i name)
      (hpackage : known (inPackage ctx.package name) = true) :
      Means (some (inPackage ctx.package name))
  | wildcard {w : String} (hclass : ∀ k z, ¬Provides known ctx nest name k z)
      (himport : ∀ i ∈ ctx.single, ¬EndsIn i name)
      (hpackage : known (inPackage ctx.package name) = false)
      (hwildcard : IsFirst (fun w => known (w ++ "." ++ name) = true) ctx.wildcards w) :
      Means (some (w ++ "." ++ name))
  | implicit (hclass : ∀ k z, ¬Provides known ctx nest name k z)
      (himport : ∀ i ∈ ctx.single, ¬EndsIn i name)
      (hpackage : known (inPackage ctx.package name) = false)
      (hwildcard : ∀ w ∈ ctx.wildcards, known (w ++ "." ++ name) = false)
      (himplicit : name ∈ implicitlyImported) : Means (some ("java.lang." ++ name))
  | unresolved (hclass : ∀ k z, ¬Provides known ctx nest name k z)
      (himport : ∀ i ∈ ctx.single, ¬EndsIn i name)
      (hpackage : known (inPackage ctx.package name) = false)
      (hwildcard : ∀ w ∈ ctx.wildcards, known (w ++ "." ++ name) = false)
      (himplicit : name ∉ implicitlyImported) : Means none

end

variable {nest : Nest}

/-! ### Each source -/

theorem Provides.lt (h : Provides known ctx nest name k y) : k < nest.names.length := by
  cases h with
  | itself hname _ => exact (List.getElem?_eq_some_iff.mp hname).1
  | member hk _ _ => exact hk

theorem inScope_classAt_eq_some_iff (hk : k < nest.names.length) :
    inScope known name (nest.classAt ctx.package (k + 1)) = some y ↔
      Provides known ctx nest name k y := by
  obtain ⟨x, hx⟩ := nest.exists_name hk
  have hself : (Text.lastField '.' (nest.classAt ctx.package (k + 1)) == name &&
      known (nest.classAt ctx.package (k + 1))) = true ↔
        nest.names[k]? = some name ∧ known (nest.classAt ctx.package (k + 1)) = true := by
    rw [Nest.lastField_classAt ctx.package hx, hx, Bool.and_eq_true, beq_iff_eq, Option.some_inj]
  rw [inScope]
  split
  · rename_i h
    constructor
    · rintro ⟨⟩
      exact .itself (hself.mp h).1 (hself.mp h).2
    · intro hprovides
      cases hprovides with
      | itself => rfl
      | member _ hnot _ => exact absurd (hself.mp h) hnot
  · rename_i h
    constructor
    · intro heq
      split at heq
      · cases heq
        rename_i hknown
        exact .member hk (mt hself.mpr h) hknown
      · cases heq
    · intro hprovides
      cases hprovides with
      | itself hname hknown => exact absurd (hself.mpr ⟨hname, hknown⟩) h
      | member _ _ hknown => rw [if_pos hknown]

theorem inScope_classAt_eq_none_iff (hk : k < nest.names.length) :
    inScope known name (nest.classAt ctx.package (k + 1)) = none ↔
      ∀ z, ¬Provides known ctx nest name k z := by
  rw [Option.eq_none_iff_forall_ne_some]
  exact forall_congr' fun z => not_congr (inScope_classAt_eq_some_iff hk)

theorem fromClasses_eq_some_iff :
    (nest.outward ctx.package nest.names.length).findSome? (inScope known name) = some y ↔
      ∃ k, Provides known ctx nest name k y ∧
        ∀ j z, k < j → ¬Provides known ctx nest name j z := by
  rw [Nest.findSome?_outward_eq_some_iff]
  constructor
  · rintro ⟨k, hk, hclass, hinner⟩
    refine ⟨k, (inScope_classAt_eq_some_iff hk).mp hclass, fun j z hlt hprovides => ?_⟩
    exact (inScope_classAt_eq_none_iff hprovides.lt).mp (hinner j hprovides.lt hlt) z hprovides
  · rintro ⟨k, hclass, hinner⟩
    refine ⟨k, hclass.lt, (inScope_classAt_eq_some_iff hclass.lt).mpr hclass, fun j hj hlt => ?_⟩
    exact (inScope_classAt_eq_none_iff hj).mpr fun z => hinner j z hlt

theorem fromClasses_eq_none_iff :
    (nest.outward ctx.package nest.names.length).findSome? (inScope known name) = none ↔
      ∀ k z, ¬Provides known ctx nest name k z := by
  simp only [Nest.outward, List.findSome?_map, List.findSome?_eq_none_iff, List.mem_reverse,
    List.mem_range, Function.comp_apply]
  constructor
  · exact fun h k z hprovides =>
      (inScope_classAt_eq_none_iff hprovides.lt).mp (h k hprovides.lt) z hprovides
  · exact fun h k hk => (inScope_classAt_eq_none_iff hk).mpr (h k)

theorem find?_eq_some_iff_isFirst {α : Type} {p : α → Bool} {q : α → Prop}
    (hpq : ∀ a, p a = true ↔ q a) {l : List α} {a : α} :
    l.find? p = some a ↔ IsFirst q l a := by
  rw [List.find?_eq_some_iff_append, IsFirst]
  simp only [hpq, Bool.not_eq_true', ← Bool.not_eq_true]
  constructor
  · rintro ⟨ha, before, after, hl, hbefore⟩
    exact ⟨before, after, hl, ha, hbefore⟩
  · rintro ⟨before, after, hl, ha, hbefore⟩
    exact ⟨ha, before, after, hl, hbefore⟩

theorem lastField_beq_iff (h : '.' ∉ name.toList) (dotted : String) :
    (Text.lastField '.' dotted == name) = true ↔ EndsIn dotted name := by
  rw [beq_iff_eq]
  exact Text.lastField_eq_iff h

theorem explicit_eq_some_iff (h : '.' ∉ name.toList) :
    ctx.explicit name = some y ↔ IsFirst (EndsIn · name) ctx.single y :=
  find?_eq_some_iff_isFirst (lastField_beq_iff h)

theorem explicit_eq_none_iff (h : '.' ∉ name.toList) :
    ctx.explicit name = none ↔ ∀ i ∈ ctx.single, ¬EndsIn i name := by
  rw [Imports.explicit, List.find?_eq_none]
  exact forall₂_congr fun i _ => not_congr (lastField_beq_iff h i)

theorem fromWildcards_eq_some_iff :
    (ctx.wildcards.map (· ++ "." ++ name)).find? known = some y ↔
      ∃ w, IsFirst (fun w => known (w ++ "." ++ name) = true) ctx.wildcards w ∧
        y = w ++ "." ++ name := by
  rw [List.find?_map, Option.map_eq_some_iff]
  refine exists_congr fun w => and_congr (find?_eq_some_iff_isFirst fun _ => Iff.rfl) eq_comm

theorem fromWildcards_eq_none_iff :
    (ctx.wildcards.map (· ++ "." ++ name)).find? known = none ↔
      ∀ w ∈ ctx.wildcards, known (w ++ "." ++ name) = false := by
  simp

/-! ### Qualified names -/

theorem qualifySimple_eq (known : String → Bool) (ctx : Imports) (nest : Nest) (name : String) :
    qualifySimple known ctx (nest.enclosing? ctx.package) name =
      ((nest.outward ctx.package nest.names.length).findSome? (inScope known name)).or
        ((ctx.explicit name).or
          ((if known (inPackage ctx.package name) then some (inPackage ctx.package name)
            else none).or
            (((ctx.wildcards.map (· ++ "." ++ name)).find? known).or
              (if implicitlyImported.contains name then some ("java.lang." ++ name)
                else none)))) := by
  have hclasses : ((nest.enclosing? ctx.package).bind fun e =>
      (scopes ctx.package e).findSome? (inScope known name)) =
        (nest.outward ctx.package nest.names.length).findSome? (inScope known name) := by
    rw [← nest.scopes_enclosing?]
    cases nest.enclosing? ctx.package <;> simp
  rw [qualifySimple, hclasses]
  simp only [Option.orElse_eq_orElse, Option.orElse_eq_or]

theorem means_qualifySimple (known : String → Bool) (ctx : Imports) (nest : Nest)
    (h : '.' ∉ name.toList) :
    Means known ctx nest name (qualifySimple known ctx (nest.enclosing? ctx.package) name) := by
  rw [qualifySimple_eq]
  cases hclass : (nest.outward ctx.package nest.names.length).findSome? (inScope known name) with
  | some y =>
      obtain ⟨k, hprovides, hinner⟩ := fromClasses_eq_some_iff.mp hclass
      exact .enclosing hprovides hinner
  | none =>
      have hclass := fromClasses_eq_none_iff.mp hclass
      cases himport : ctx.explicit name with
      | some y => exact .imported hclass ((explicit_eq_some_iff h).mp himport)
      | none =>
          have himport := (explicit_eq_none_iff h).mp himport
          cases hpackage : known (inPackage ctx.package name) with
          | true => exact .packaged hclass himport hpackage
          | false =>
              cases hwildcard : (ctx.wildcards.map (· ++ "." ++ name)).find? known with
              | some y =>
                  obtain ⟨w, hfirst, rfl⟩ := fromWildcards_eq_some_iff.mp hwildcard
                  exact .wildcard hclass himport hpackage hfirst
              | none =>
                  have hwildcard := fromWildcards_eq_none_iff.mp hwildcard
                  by_cases himplicit : name ∈ implicitlyImported
                  · simpa [himplicit] using
                      Means.implicit hclass himport hpackage hwildcard himplicit
                  · simpa [himplicit] using
                      Means.unresolved hclass himport hpackage hwildcard himplicit

/-- A name means one thing at most. -/
theorem Means.qualifySimple_eq (hmeans : Means known ctx nest name r) (h : '.' ∉ name.toList) :
    qualifySimple known ctx (nest.enclosing? ctx.package) name = r := by
  rw [TypeName.qualifySimple_eq]
  cases hmeans with
  | enclosing hclass hinner =>
      rw [fromClasses_eq_some_iff.mpr ⟨_, hclass, hinner⟩, Option.some_or]
  | imported hclass himport =>
      rw [fromClasses_eq_none_iff.mpr hclass, (explicit_eq_some_iff h).mpr himport, Option.none_or,
        Option.some_or]
  | packaged hclass himport hpackage =>
      rw [fromClasses_eq_none_iff.mpr hclass, (explicit_eq_none_iff h).mpr himport,
        if_pos hpackage, Option.none_or, Option.none_or, Option.some_or]
  | wildcard hclass himport hpackage hwildcard =>
      rw [fromClasses_eq_none_iff.mpr hclass, (explicit_eq_none_iff h).mpr himport,
        if_neg (by simp [hpackage]), fromWildcards_eq_some_iff.mpr ⟨_, hwildcard, rfl⟩,
        Option.none_or, Option.none_or, Option.none_or, Option.some_or]
  | implicit hclass himport hpackage hwildcard himplicit =>
      rw [fromClasses_eq_none_iff.mpr hclass, (explicit_eq_none_iff h).mpr himport,
        if_neg (by simp [hpackage]), fromWildcards_eq_none_iff.mpr hwildcard]
      simp [himplicit]
  | unresolved hclass himport hpackage hwildcard himplicit =>
      rw [fromClasses_eq_none_iff.mpr hclass, (explicit_eq_none_iff h).mpr himport,
        if_neg (by simp [hpackage]), fromWildcards_eq_none_iff.mpr hwildcard]
      simp [himplicit]

theorem qualify_of_simple {enclosing : Option String} {written : String}
    (hempty : strip written ≠ "") (hpoint : '.' ∉ (strip written).toList)
    (hprimitive : isPrimitive (strip written) = false) :
    qualify known ctx enclosing written = qualifySimple known ctx enclosing (strip written) := by
  rw [qualify]
  simp only [hprimitive, Text.splitOnce?_of_not_mem hpoint, Bool.false_eq_true, if_false]
  rw [if_neg (by simpa using hempty)]

theorem not_isPrimitive_of_point (h : '.' ∈ name.toList) : isPrimitive name = false := by
  have hprimitives : ∀ p ∈ primitives, '.' ∉ p.toList := by decide
  rw [isPrimitive, List.contains_eq_mem, decide_eq_false_iff_not]
  exact fun hmem => hprimitives name hmem h

theorem qualify_of_dotted {enclosing : Option String} {written first rest : String}
    (hdotted : strip written = first ++ "." ++ rest) (hpoint : '.' ∉ first.toList)
    (hknown : known (strip written) = false) :
    qualify known ctx enclosing written =
      some (match qualifySimple known ctx enclosing first with
        | some outer => outer ++ "." ++ rest
        | none => strip written) := by
  have hmem : '.' ∈ (strip written).toList := by
    rw [hdotted]
    simp
  have hempty : strip written ≠ "" := fun hempty => by simp [hempty] at hmem
  have hsplit : Text.splitOnce? '.' (strip written) = some (first, rest) := by
    rw [hdotted]
    exact Text.splitOnce?_append hpoint rest
  rw [qualify]
  simp only [not_isPrimitive_of_point hmem, hsplit, hknown, Bool.false_eq_true, if_false]
  rw [if_neg (by simpa using hempty)]
  cases qualifySimple known ctx enclosing first <;> rfl

/-- No class around a name is a front part of the package. -/
theorem not_front_of_mem_outward {scope : String}
    (h : scope ∈ nest.outward package nest.names.length) : ¬scope.toList <+: package.toList := by
  obtain ⟨k, hk, rfl⟩ := List.mem_map.mp h
  rw [List.mem_reverse, List.mem_range] at hk
  have hle : package.length + (k + 1) ≤ (nest.classAt package (k + 1)).length :=
    nest.add_le_classAt isSize_length package hk
  intro hfront
  have hlength := hfront.length_le
  simp only [String.length_toList] at hlength
  omega

/-- A simple name is qualified to the one thing it means in the order of the
sources, and a dotted name that is not known by what its first segment means. The
scopes of classes are the enclosing classes, and no part of the package is one. -/
theorem qualify_follows_scope_order (known : String → Bool) (ctx : Imports) (nest : Nest) :
    (∀ name, '.' ∉ name.toList → ∃! r, Means known ctx nest name r) ∧
    (∀ written r, strip written ≠ "" → '.' ∉ (strip written).toList →
      isPrimitive (strip written) = false → Means known ctx nest (strip written) r →
      qualify known ctx (nest.enclosing? ctx.package) written = r) ∧
    (∀ written first rest r, strip written = first ++ "." ++ rest → '.' ∉ first.toList →
      known (strip written) = false → Means known ctx nest first r →
      qualify known ctx (nest.enclosing? ctx.package) written =
        some (match r with
          | some outer => outer ++ "." ++ rest
          | none => strip written)) ∧
    (nest.enclosing? ctx.package).toList.flatMap (scopes ctx.package) =
      nest.outward ctx.package nest.names.length ∧
    ∀ scope ∈ nest.outward ctx.package nest.names.length,
      ¬scope.toList <+: ctx.package.toList := by
  refine ⟨fun name h => ?_, fun written r hempty hpoint hprimitive hmeans => ?_,
    fun written first rest r hdotted hpoint hknown hmeans => ?_, nest.scopes_enclosing? _,
    fun scope hscope => not_front_of_mem_outward hscope⟩
  · exact ⟨_, means_qualifySimple known ctx nest h, fun r hr => (hr.qualifySimple_eq h).symm⟩
  · rw [qualify_of_simple hempty hpoint hprimitive, hmeans.qualifySimple_eq hpoint]
  · rw [qualify_of_dotted hdotted hpoint hknown, hmeans.qualifySimple_eq hpoint]

/-- Two nested classes, of which the outer one has a member `Builder`. -/
def nestedKnown (x : String) : Bool :=
  ["com.app.Outer", "com.app.Outer.Builder", "com.app.Outer.Inner"].contains x

def nestedImports : Imports :=
  { package := "com.app", single := ["android.app.Notification.Builder"] }

def nestedNest : Nest := ⟨["Outer", "Inner"], by decide⟩

/-- The member of the outer class comes before the import. -/
theorem qualify_builder_from_inside :
    qualify nestedKnown nestedImports (some "com.app.Outer.Inner") "Builder" =
        some "com.app.Outer.Builder" ∧
      qualify nestedKnown nestedImports (some "com.app.Outer.Inner") "Builder.Step[]" =
        some "com.app.Outer.Builder.Step" := by
  have hmeans : Means nestedKnown nestedImports nestedNest "Builder"
      (some "com.app.Outer.Builder") := by
    have hclass : Provides nestedKnown nestedImports nestedNest "Builder" 0
        "com.app.Outer.Builder" := .member (by decide) (by decide) (by decide)
    refine .enclosing hclass fun j z hj hinner => ?_
    have hlt : j < 2 := hinner.lt
    obtain rfl : j = 1 := by omega
    cases hinner with
    | itself hname _ => exact absurd hname (by decide)
    | member _ _ hknown => exact absurd hknown (by decide)
  have horder := qualify_follows_scope_order nestedKnown nestedImports nestedNest
  exact ⟨horder.2.1 "Builder" _ (by decide) (by decide) (by decide) hmeans,
    horder.2.2.1 "Builder.Step[]" "Builder" "Step" _ (by decide) (by decide) (by decide) hmeans⟩

end TypeName

end LintEngine
