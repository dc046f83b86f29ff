import LintEngine.Symbols.Table
import Mathlib.Data.List.Basic

/-!
What the symbol table knows. A class is found under its own name, and it is the
first one given with that name, with nothing changed but the type names in it.
A field or a method is found in a class of the table that declares it, and in
the class itself before any of its supertypes.
-/

namespace LintEngine

namespace SymbolTable

variable {s : SymbolTable} {name x : String} {c owner : ClassSymbol} {f : FieldSymbol}

/-! ### Building -/

theorem find?_filter_and {α : Type} (l : List α) (p q : α → Bool) :
    (l.filter p).find? q = l.find? fun a => p a && q a := by
  rw [List.find?_filter]
  simp only [Bool.decide_and, Bool.decide_eq_true]

theorem find?_keepFirst (classes : List ClassSymbol) (name : String) :
    (keepFirst classes).find? (·.name == name) = classes.find? (·.name == name) := by
  induction classes with
  | nil => rfl
  | cons c classes ih =>
      rw [keepFirst, List.find?_cons, List.find?_cons]
      cases hc : c.name == name with
      | true => rfl
      | false =>
          -- the classes that were taken out have the name of `c`
          rw [find?_filter_and, ← ih]
          refine congrArg (List.find? · (keepFirst classes)) (funext fun a => ?_)
          cases ha : a.name == name with
          | false => rw [Bool.and_false]
          | true =>
              have hne : a.name ≠ c.name := by
                rw [beq_iff_eq.mp ha]
                exact fun heq => Bool.false_ne_true (hc.symm.trans (beq_iff_eq.mpr heq.symm))
              rw [Bool.and_true, bne_iff_ne]
              exact hne

theorem class?_ofClasses (classes : List ClassSymbol) (name : String) :
    (ofClasses classes).class? name = (classes.find? (·.name == name)).map
      (qualifyClass fun n => classes.any (·.name == n)) := by
  rw [class?, ofClasses, List.find?_map, ← find?_keepFirst]
  rfl

/-- Qualifying the names in a class changes nothing of its fields that folding
looks at. -/
theorem qualifyClass_fields (known : String → Bool) (c : ClassSymbol) :
    ∃ g : FieldSymbol → FieldSymbol, (qualifyClass known c).fields = c.fields.map g ∧
      ∀ f, (g f).name = f.name ∧ (g f).modifiers = f.modifiers ∧
        (g f).initializer = f.initializer :=
  ⟨_, rfl, fun _ => ⟨rfl, rfl, rfl⟩⟩

theorem field?_qualifyClass (known : String → Bool) (h : c.field? x = some f) :
    ∃ g, (qualifyClass known c).field? x = some g ∧ g.modifiers = f.modifiers ∧
      g.initializer = f.initializer := by
  obtain ⟨g, hfields, hg⟩ := qualifyClass_fields known c
  have hname : ((·.name == x) ∘ g : FieldSymbol → Bool) = (·.name == x) :=
    funext fun f => congrArg (· == x) (hg f).1
  refine ⟨g f, ?_, (hg f).2⟩
  rw [ClassSymbol.field?, hfields, List.find?_map, hname]
  exact congrArg (Option.map g) h

/-! ### Classes and fields -/

theorem name_of_class? (h : s.class? name = some c) : c.name = name :=
  beq_iff_eq.mp (List.find?_some (p := fun c : ClassSymbol => c.name == name) h)

theorem mem_of_class? (h : s.class? name = some c) : c ∈ s.classes :=
  List.mem_of_find?_eq_some h

theorem class?_of_mem_explore {n : Nat} {seen queue : List String}
    (h : c ∈ s.explore n seen queue) : s.class? c.name = some c := by
  induction n generalizing seen queue with
  | zero => cases h
  | succ n ih =>
      cases queue with
      | nil => cases h
      | cons next queue =>
          rw [explore] at h
          split at h
          · exact ih h
          · split at h
            · exact ih h
            · rename_i c' hnext
              rcases List.mem_cons.mp h with rfl | h
              · rw [name_of_class? hnext]
                exact hnext
              · exact ih h

/-- A field is found in a class of the table that declares it. -/
theorem of_findField (h : s.findField name x = some (owner, f)) :
    s.class? owner.name = some owner ∧ owner.field? x = some f := by
  obtain ⟨c, hc, hfield⟩ := List.exists_of_findSome?_eq_some h
  obtain ⟨f', hf', heq⟩ := Option.map_eq_some_iff.mp hfield
  cases heq
  exact ⟨class?_of_mem_explore hc, hf'⟩

theorem linkCount_pos (s : SymbolTable) : 0 < s.linkCount := by
  rw [linkCount]
  induction s.classes with
  | nil => exact Nat.one_pos
  | cons c classes ih => exact Nat.add_pos_right _ ih

/-- A class comes before its supertypes. -/
theorem exists_hierarchy_eq_cons (hc : s.class? name = some c) :
    ∃ supertypes, s.hierarchy name = c :: supertypes := by
  obtain ⟨n, hn⟩ := Nat.exists_eq_add_one.mpr s.linkCount_pos
  rw [hierarchy, hn, explore, List.contains_nil, if_neg Bool.false_ne_true]
  simp only [hc]
  exact ⟨_, rfl⟩

theorem findField_of_field? (hc : s.class? name = some c) (hf : c.field? x = some f) :
    s.findField name x = some (c, f) := by
  obtain ⟨supertypes, hhierarchy⟩ := exists_hierarchy_eq_cons hc
  rw [findField, hhierarchy, List.findSome?_cons, hf]
  rfl

/-- A method is found in a class of the table that declares it. -/
theorem of_findMethod {n : Nat} {m : MethodSymbol}
    (h : s.findMethod name x n = some (owner, m)) :
    s.class? owner.name = some owner ∧ owner.method? x n = some m := by
  obtain ⟨c, hc, hmethod⟩ := List.exists_of_findSome?_eq_some h
  obtain ⟨m', hm', heq⟩ := Option.map_eq_some_iff.mp hmethod
  cases heq
  exact ⟨class?_of_mem_explore hc, hm'⟩

theorem findMethod_of_method? {n : Nat} {m : MethodSymbol} (hc : s.class? name = some c)
    (hm : c.method? x n = some m) : s.findMethod name x n = some (c, m) := by
  obtain ⟨supertypes, hhierarchy⟩ := exists_hierarchy_eq_cons hc
  rw [findMethod, hhierarchy, List.findSome?_cons, hm]
  rfl

/-! ### Classes around a class -/

theorem countP_lt_countP {α : Type} {p q : α → Bool} {l : List α} {a : α} (ha : a ∈ l)
    (h : ∀ b, p b = true → q b = true) (hp : p a = false) (hq : q a = true) :
    l.countP p < l.countP q := by
  obtain ⟨before, after, rfl⟩ := List.append_of_mem ha
  have hbefore : before.countP p ≤ before.countP q := List.countP_mono_left fun b _ => h b
  have hafter : after.countP p ≤ after.countP q := List.countP_mono_left fun b _ => h b
  rw [List.countP_append, List.countP_append, List.countP_cons_of_neg (by simp [hp]),
    List.countP_cons_of_pos hq]
  omega

def countUpTo (s : SymbolTable) (name : String) : Nat :=
  s.classes.countP (·.name.length ≤ name.length)

theorem countUpTo_le (s : SymbolTable) (name : String) : s.countUpTo name ≤ s.classes.length :=
  List.countP_le_length

theorem countUpTo_pos (hc : s.class? name = some c) : 0 < s.countUpTo name :=
  List.countP_pos_iff.mpr
    ⟨c, mem_of_class? hc, decide_eq_true (Nat.le_of_eq (congrArg _ (name_of_class? hc)))⟩

/-- A class with a shorter name counts fewer, because it does not count the
class with the longer one. -/
theorem countUpTo_lt {outer : String} (hc : s.class? name = some c)
    (hlt : outer.length < name.length) : s.countUpTo outer < s.countUpTo name := by
  have hlength : c.name.length = name.length := congrArg _ (name_of_class? hc)
  refine countP_lt_countP (mem_of_class? hc) (fun a ha => ?_) ?_ ?_
  · simp only [decide_eq_true_eq] at ha ⊢
    omega
  · simpa [hlength] using hlt
  · simp [hlength]

/-! ### Classes that have not been seen -/

def unseen (s : SymbolTable) (seen : List String) : Nat :=
  s.classes.countP fun c => !seen.contains c.name

theorem unseen_le_length (s : SymbolTable) (seen : List String) :
    s.unseen seen ≤ s.classes.length :=
  List.countP_le_length

theorem unseen_mono {seen seen' : List String} (h : seen ⊆ seen') :
    s.unseen seen' ≤ s.unseen seen := by
  refine List.countP_mono_left fun c _ hc => ?_
  simp only [Bool.not_eq_true', List.contains_eq_mem, decide_eq_false_iff_not] at hc ⊢
  exact fun hmem => hc (h hmem)

theorem unseen_cons_lt {seen : List String} (hc : s.class? name = some c) (hnew : name ∉ seen) :
    s.unseen (name :: seen) < s.unseen seen := by
  obtain rfl := name_of_class? hc
  refine countP_lt_countP (mem_of_class? hc) (fun a ha => ?_) ?_ ?_
  · simp only [List.contains_cons, Bool.not_or, Bool.and_eq_true] at ha
    exact ha.2
  · simp
  · simpa using hnew

end SymbolTable

end LintEngine
