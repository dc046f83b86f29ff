import LintEngine.Proofs.Symbols.Hierarchy
import Mathlib.Order.Defs.Unbundled

/-!
Subtypes. Whether a type extends a class is a matter of the chain of superclasses
above it, whether it implements an interface one of its whole hierarchy. Both may
lead to unknown classes, and both may lead back.

`Climb` is the way up the chain, which ends at the top, at the class that is
looked for, or at a name that was passed before. `Passed` is what every step keeps:
the class was not among the names passed, and these lead to each other or to the
next one. So a way that ends where it was before has missed nothing. Main
statement: both questions have an end, their answers are what the links say, and
each of the two is reflexive and transitive unless equality is excluded.
-/

namespace LintEngine

namespace SymbolTable

variable {s : SymbolTable} {x y z q : String} {next : Option String} {seen : List String}
  {c : ClassSymbol} {b : Bool} {m n : Nat}

/-! ### The chain of superclasses -/

def superclass? (s : SymbolTable) (x : String) : Option String :=
  (s.class? x).bind (·.superclass)

inductive Extends (s : SymbolTable) : Nat → String → String → Prop
  | here (x : String) : Extends s 0 x x
  | link {n : Nat} {x y z : String} (hlink : s.superclass? x = some y) (h : Extends s n y z) :
      Extends s (n + 1) x z

theorem Extends.trans (h : s.Extends m x y) (h' : s.Extends n y z) : s.Extends (m + n) x z := by
  induction h with
  | here => rwa [Nat.zero_add]
  | link hlink _ ih =>
      rw [Nat.add_right_comm]
      exact .link hlink (ih h')

theorem superclass?_of_unknown (h : s.class? x = none) : s.superclass? x = none := by
  rw [superclass?, h]
  rfl

theorem superclasses_of_none (h : s.superclass? x = none) : s.superclasses n x = [] := by
  cases n with
  | zero => rfl
  | succ n =>
      rw [superclass?] at h
      rw [superclasses, h]

theorem superclasses_of_some (h : s.superclass? x = some y) :
    s.superclasses (n + 1) x = y :: s.superclasses n y := by
  rw [superclass?] at h
  rw [superclasses, h]

theorem extends_of_mem_superclasses (h : q ∈ s.superclasses n x) : ∃ m, s.Extends (m + 1) x q := by
  induction n generalizing x with
  | zero => simp [superclasses] at h
  | succ n ih =>
      cases hx : s.superclass? x with
      | none => simp [superclasses_of_none hx] at h
      | some y =>
          rw [superclasses_of_some hx] at h
          rcases List.mem_cons.mp h with rfl | h
          · exact ⟨0, .link hx (.here q)⟩
          · obtain ⟨m, hm⟩ := ih h
            exact ⟨m + 1, .link hx hm⟩

/-! ### The way up -/

/-- The way up a chain from the names passed and the next one, in search of `q`. Its
last part tells whether `q` was met. -/
inductive Climb (s : SymbolTable) (q : String) : List String → Option String → Bool → Prop
  | top (seen : List String) : Climb s q seen none false
  | found (seen : List String) : Climb s q seen (some q) true
  | back {x : String} {seen : List String} (hne : x ≠ q) (hseen : x ∈ seen) :
      Climb s q seen (some x) false
  | up {x : String} {seen : List String} {b : Bool} (hne : x ≠ q) (hnew : x ∉ seen)
      (h : Climb s q (x :: seen) (s.superclass? x) b) : Climb s q seen (some x) b

structure Passed (s : SymbolTable) (q : String) (seen : List String) (next : Option String) :
    Prop where
  missed : q ∉ seen
  closed : ∀ x ∈ seen, ∀ y, s.superclass? x = some y → y ∈ seen ∨ next = some y

namespace Passed

theorem initial (s : SymbolTable) (q : String) (next : Option String) : s.Passed q [] next where
  missed := List.not_mem_nil
  closed _ hx := absurd hx List.not_mem_nil

theorem up (h : s.Passed q seen (some x)) (hne : x ≠ q) :
    s.Passed q (x :: seen) (s.superclass? x) where
  missed := List.not_mem_cons_of_ne_of_not_mem hne.symm h.missed
  closed y hy z hlink := by
    rcases List.mem_cons.mp hy with rfl | hy
    · exact .inr hlink
    · rcases h.closed y hy z hlink with hz | hz
      · exact .inl (List.mem_cons_of_mem x hz)
      · exact .inl (Option.some.inj hz ▸ List.mem_cons_self)

/-- From a name that was passed before, only such names are reached. -/
theorem mem_of_extends (h : s.Passed q seen (some x)) (hx : x ∈ seen) (hy : y ∈ seen)
    (hext : s.Extends n y z) : z ∈ seen := by
  induction hext with
  | here => exact hy
  | link hlink _ ih =>
      rcases h.closed _ hy _ hlink with hnext | hnext
      · exact ih hnext
      · exact ih (Option.some.inj hnext ▸ hx)

theorem not_extends (h : s.Passed q seen (some x)) (hx : x ∈ seen) : ¬s.Extends n x q :=
  fun hext => h.missed (h.mem_of_extends hx hx hext)

end Passed

/-- A class above is met on the way up. -/
theorem Climb.eq_true (h : s.Climb q seen next b) (hpassed : s.Passed q seen next)
    (hnext : next = some x) (hext : s.Extends n x q) : b = true := by
  induction h generalizing n x with
  | top => cases hnext
  | found => rfl
  | back _ hseen =>
      obtain rfl := Option.some.inj hnext
      exact absurd hext (hpassed.not_extends hseen)
  | up hne _ _ ih =>
      obtain rfl := Option.some.inj hnext
      cases hext with
      | here => exact absurd rfl hne
      | link hlink hext => exact ih (hpassed.up hne) hlink hext

/-- A bound above the number of classes not passed is never reached. -/
theorem climb_superclasses (hpassed : s.Passed q seen (s.superclass? x)) (hn : s.unseen seen < n) :
    s.Climb q seen (s.superclass? x) ((s.superclasses n x).contains q) := by
  induction n generalizing seen x with
  | zero => omega
  | succ n ih =>
      cases hx : s.superclass? x with
      | none =>
          rw [superclasses_of_none hx]
          exact .top seen
      | some y =>
          rw [hx] at hpassed
          rw [superclasses_of_some hx]
          by_cases hq : y = q
          · subst hq
            simpa using Climb.found seen
          have hhead : (y :: s.superclasses n y).contains q = (s.superclasses n y).contains q := by
            simp [Ne.symm hq]
          rw [hhead]
          by_cases hseen : y ∈ seen
          · -- the chain goes round through names that were passed, and `q` is not one of them
            have hmissed : (s.superclasses n y).contains q = false := by
              by_contra hmem
              obtain ⟨m, hext⟩ := extends_of_mem_superclasses (by simpa using hmem)
              exact hpassed.not_extends hseen hext
            rw [hmissed]
            exact .back hq hseen
          · refine .up hq hseen ?_
            cases hc : s.class? y with
            | none =>
                have hy := superclass?_of_unknown hc
                rw [hy, superclasses_of_none hy]
                exact .top _
            | some c =>
                have hlt := unseen_cons_lt hc hseen
                exact ih (hpassed.up hq) (by omega)

theorem extendsClass_of_ne {t : String} {strict : Bool}
    (h : ¬(strict = false ∧ TypeName.strip t = q)) :
    s.extendsClass t q strict =
      (s.superclasses (s.classes.length + 1) (TypeName.strip t)).contains q := by
  have hequal : (!strict && TypeName.strip t == q) = false := by
    rwa [Bool.and_eq_false_iff, Bool.not_eq_false', beq_eq_false_iff_ne, ← Bool.not_eq_false,
      ← not_and_or]
  rw [extendsClass, hequal, Bool.false_or]

/-- Equality answers at once where it may; otherwise the way up does. -/
theorem climb_extendsClass (s : SymbolTable) (t q : String) (strict : Bool) :
    (strict = false ∧ TypeName.strip t = q) ∨
      s.Climb q [] (s.superclass? (TypeName.strip t)) (s.extendsClass t q strict) := by
  refine or_iff_not_imp_left.mpr fun hne => ?_
  rw [extendsClass_of_ne hne]
  exact climb_superclasses (Passed.initial s q _) (Nat.lt_succ_of_le (s.unseen_le_length []))

/-! ### What the answers say -/

theorem extendsClass_strict_iff (s : SymbolTable) (t q : String) :
    s.extendsClass t q true = true ↔ ∃ n, s.Extends (n + 1) (TypeName.strip t) q := by
  constructor
  · intro h
    refine extends_of_mem_superclasses (n := s.classes.length + 1) ?_
    simpa [extendsClass] using h
  · rintro ⟨n, hext⟩
    cases hext with
    | link hlink hext =>
        have hclimb := (s.climb_extendsClass t q true).resolve_left (by simp)
        exact hclimb.eq_true (Passed.initial s q _) hlink hext

theorem extendsClass_iff (s : SymbolTable) (t q : String) (strict : Bool) :
    s.extendsClass t q strict = true ↔
      ∃ n, (strict = true → 1 ≤ n) ∧ s.Extends n (TypeName.strip t) q := by
  cases strict with
  | true =>
      rw [extendsClass_strict_iff]
      constructor
      · rintro ⟨n, hext⟩
        exact ⟨n + 1, fun _ => Nat.le_add_left 1 n, hext⟩
      · rintro ⟨n, hn, hext⟩
        obtain ⟨m, rfl⟩ := Nat.exists_eq_add_of_le' (hn rfl)
        exact ⟨m, hext⟩
  | false =>
      have hsplit : s.extendsClass t q false = true ↔
          TypeName.strip t = q ∨ s.extendsClass t q true = true := by
        simp [extendsClass]
      rw [hsplit, extendsClass_strict_iff]
      constructor
      · rintro (rfl | ⟨n, hext⟩)
        · exact ⟨0, nofun, .here _⟩
        · exact ⟨n + 1, nofun, hext⟩
      · rintro ⟨_, -, hext⟩
        cases hext with
        | here => exact .inl rfl
        | link hlink hext => exact .inr ⟨_, .link hlink hext⟩

/-! ### Interfaces -/

theorem hierarchy_of_unknown (h : s.class? x = none) : s.hierarchy x = [] := by
  have hsearch := s.search_hierarchy x
  generalize s.hierarchy x = found at hsearch
  cases hsearch with
  | repeated hseen _ => exact absurd hseen List.not_mem_nil
  | unknown _ _ hsearch =>
      cases hsearch
      rfl
  | known _ hc _ => simp [h] at hc

/-- Behind the first class of a hierarchy stand the classes of other names. -/
theorem mem_tail_hierarchy (s : SymbolTable) (x : String) (c : ClassSymbol) :
    c ∈ (s.hierarchy x).tail ↔ c ∈ s.hierarchy x ∧ c.name ≠ x := by
  cases hx : s.class? x with
  | none => simp [hierarchy_of_unknown hx]
  | some e =>
      obtain ⟨supertypes, hcons⟩ := exists_hierarchy_eq_cons hx
      have hnodup := (s.isHierarchy_hierarchy x).nodup
      rw [hcons, List.map_cons, List.nodup_cons, name_of_class? hx] at hnodup
      rw [hcons, List.tail_cons, List.mem_cons]
      constructor
      · intro hc
        exact ⟨.inr hc, fun hname => hnodup.1 (hname ▸ List.mem_map_of_mem hc)⟩
      · rintro ⟨rfl | hc, hne⟩
        · exact absurd (name_of_class? hx) hne
        · exact hc

theorem implementsInterface_iff (s : SymbolTable) (t q : String) (strict : Bool) :
    s.implementsInterface t q strict = true ↔
      (strict = false ∧ TypeName.strip t = q) ∨
        ∃ c ∈ s.hierarchy (TypeName.strip t),
          q ∈ c.interfaces ∨ (c.name = q ∧ c.name ≠ TypeName.strip t) := by
  simp only [implementsInterface, Bool.or_eq_true, Bool.and_eq_true, Bool.not_eq_true',
    beq_iff_eq, List.any_eq_true, List.contains_iff_mem, mem_tail_hierarchy, or_assoc]
  refine or_congr Iff.rfl ⟨?_, ?_⟩
  · rintro (⟨c, ⟨hc, hne⟩, hname⟩ | ⟨c, hc, hmem⟩)
    · exact ⟨c, hc, .inr ⟨hname, hne⟩⟩
    · exact ⟨c, hc, .inl hmem⟩
  · rintro ⟨c, hc, hmem | ⟨hname, hne⟩⟩
    · exact .inr ⟨c, hc, hmem⟩
    · exact .inl ⟨c, ⟨hc, hne⟩, hname⟩

theorem Reaches.trans (h : s.Reaches x m y) (h' : s.Reaches y n z) : s.Reaches x (m + n) z := by
  induction h' with
  | here => exact h
  | link _ hlink ih => exact .link ih hlink

/-- The hierarchy of a type that is reached is part of the hierarchy. -/
theorem mem_hierarchy_of_reaches (h : s.Reaches x n y) (hc : c ∈ s.hierarchy y) :
    c ∈ s.hierarchy x := by
  obtain ⟨hclass, m, hreaches⟩ := ((s.isHierarchy_hierarchy y).mem c).mp hc
  exact ((s.isHierarchy_hierarchy x).mem c).mpr ⟨hclass, n + m, h.trans hreaches⟩

theorem reaches_of_implementsInterface {t : String}
    (h : s.implementsInterface t q false = true) : ∃ n, s.Reaches (TypeName.strip t) n q := by
  rcases (s.implementsInterface_iff t q false).mp h with ⟨-, rfl⟩ | ⟨c, hc, hq⟩
  · exact ⟨0, .here⟩
  obtain ⟨hclass, n, hreaches⟩ := ((s.isHierarchy_hierarchy _).mem c).mp hc
  rcases hq with hq | ⟨rfl, -⟩
  · exact ⟨n + 1, .link hreaches ⟨c, hclass, .inr hq⟩⟩
  · exact ⟨n, hreaches⟩

/-! ### Subtypes as orders -/

def PlainName : Type := { x : String // TypeName.strip x = x }

def IsSubclass (s : SymbolTable) (a b : PlainName) : Prop := s.extendsClass a.1 b.1 false = true

def IsImplementation (s : SymbolTable) (a b : PlainName) : Prop :=
  s.implementsInterface a.1 b.1 false = true

theorem isPreorder_isSubclass (s : SymbolTable) : IsPreorder PlainName s.IsSubclass where
  refl a := by
    refine (s.extendsClass_iff a.1 a.1 false).mpr ⟨0, nofun, ?_⟩
    rw [a.2]
    exact .here a.1
  trans a b d hab hbd := by
    obtain ⟨m, -, hab⟩ := (s.extendsClass_iff a.1 b.1 false).mp hab
    obtain ⟨n, -, hbd⟩ := (s.extendsClass_iff b.1 d.1 false).mp hbd
    rw [b.2] at hbd
    exact (s.extendsClass_iff a.1 d.1 false).mpr ⟨m + n, nofun, hab.trans hbd⟩

theorem isPreorder_isImplementation (s : SymbolTable) :
    IsPreorder PlainName s.IsImplementation where
  refl a := (s.implementsInterface_iff a.1 a.1 false).mpr (.inl ⟨rfl, a.2⟩)
  trans a b d hab hbd := by
    obtain ⟨n, hreaches⟩ := reaches_of_implementsInterface hab
    rcases (s.implementsInterface_iff b.1 d.1 false).mp hbd with ⟨-, hd⟩ | ⟨c, hc, hd⟩
    · obtain rfl : b = d := Subtype.ext (b.2.symm.trans hd)
      exact hab
    rw [b.2] at hc
    have hc := mem_hierarchy_of_reaches hreaches hc
    refine (s.implementsInterface_iff a.1 d.1 false).mpr ?_
    by_cases heq : TypeName.strip a.1 = d.1
    · exact .inl ⟨rfl, heq⟩
    · -- a class of the name itself would be a class of another name here
      exact .inr ⟨c, hc, hd.imp_right fun ⟨hname, _⟩ => ⟨hname, hname ▸ Ne.symm heq⟩⟩

/-- A type extends a class exactly if the class is reached through superclasses, at
least one of them where equality is excluded. It implements an interface exactly if
it is equal to it and may be, or if a class of its hierarchy lists the interface, or
is it and is not the type itself. Both questions have an end whatever the links are,
and both relations are reflexive and transitive. -/
theorem subtype_queries_are_exact (s : SymbolTable) :
    (∀ t q strict, s.extendsClass t q strict = true ↔
      ∃ n, (strict = true → 1 ≤ n) ∧ s.Extends n (TypeName.strip t) q) ∧
    (∀ t q strict, s.implementsInterface t q strict = true ↔
      (strict = false ∧ TypeName.strip t = q) ∨
        ∃ c ∈ s.hierarchy (TypeName.strip t),
          q ∈ c.interfaces ∨ (c.name = q ∧ c.name ≠ TypeName.strip t)) ∧
    (∀ t q strict, (strict = false ∧ TypeName.strip t = q) ∨
      s.Climb q [] (s.superclass? (TypeName.strip t)) (s.extendsClass t q strict)) ∧
    (∀ t, s.Search [] [TypeName.strip t] (s.hierarchy (TypeName.strip t))) ∧
    IsPreorder PlainName s.IsSubclass ∧ IsPreorder PlainName s.IsImplementation :=
  ⟨s.extendsClass_iff, s.implementsInterface_iff, s.climb_extendsClass,
    fun t => s.search_hierarchy (TypeName.strip t), s.isPreorder_isSubclass,
    s.isPreorder_isImplementation⟩

end SymbolTable

end LintEngine
