import LintEngine.View.Annotations
import Mathlib.Data.List.Nodup

/-!
The first annotation of every name. Annotations are put at the end of a list one by
one, each unless one of its name is there. So nothing that is in the list is moved
or replaced, no name comes twice, and for each name the first annotation stays.

The annotations of a declaration are put together in this way: those declared on it
with what they carry, and then those inherited with what these carry. Main
statement: what is inherited only follows what is declared, and speaks for a name
only where nothing that is declared does.
-/

namespace LintEngine.View

variable {out l : List Annotation} {a : Annotation} {x : String}

/-! ### One annotation -/

theorem addNew_of_mem (h : a.name ∈ out.map (·.name)) : addNew out a = out := by
  obtain ⟨b, hb, hname⟩ := List.mem_map.mp h
  rw [addNew, if_pos]
  simpa using ⟨b, hb, hname⟩

theorem addNew_of_not_mem (h : a.name ∉ out.map (·.name)) : addNew out a = out ++ [a] := by
  rw [addNew, if_neg]
  simpa using h

theorem mem_names_addNew : x ∈ (addNew out a).map (·.name) ↔ x ∈ out.map (·.name) ∨ x = a.name := by
  by_cases h : a.name ∈ out.map (·.name)
  · rw [addNew_of_mem h]
    exact ⟨.inl, fun hx => hx.elim id fun hx => hx ▸ h⟩
  · rw [addNew_of_not_mem h, List.map_append, List.mem_append]
    simp

theorem nodup_addNew (hout : (out.map (·.name)).Nodup) (a : Annotation) :
    ((addNew out a).map (·.name)).Nodup := by
  by_cases h : a.name ∈ out.map (·.name)
  · rwa [addNew_of_mem h]
  · rw [addNew_of_not_mem h, List.map_append, List.map_singleton, ← List.concat_eq_append]
    exact hout.concat h

theorem addNew_extends (out : List Annotation) (a : Annotation) :
    ∃ more, addNew out a = out ++ more ∧ more.Sublist [a] := by
  by_cases h : a.name ∈ out.map (·.name)
  · exact ⟨[], by rw [addNew_of_mem h, List.append_nil], List.nil_sublist _⟩
  · exact ⟨[a], addNew_of_not_mem h, List.Sublist.refl _⟩

/-- An annotation that is left out has a name that is found already. -/
theorem find?_addNew (out : List Annotation) (a : Annotation) (x : String) :
    (addNew out a).find? (·.name == x) = (out ++ [a]).find? (·.name == x) := by
  by_cases h : a.name ∈ out.map (·.name)
  · rw [addNew_of_mem h, List.find?_append]
    by_cases hx : a.name = x
    · obtain ⟨b, hb, hname⟩ := List.mem_map.mp h
      have hsome : (out.find? (·.name == x)).isSome := by
        rw [List.find?_isSome]
        exact ⟨b, hb, by simpa [hx] using hname⟩
      rw [Option.or_of_isSome hsome]
    · simp [hx]
  · rw [addNew_of_not_mem h]

theorem filter_addNew {p : Annotation → Bool} (hp : ∀ a b, a.name = b.name → p a = p b)
    (out : List Annotation) (a : Annotation) :
    (addNew out a).filter p = if p a then addNew (out.filter p) a else out.filter p := by
  have hany : p a = true → out.any (·.name == a.name) = (out.filter p).any (·.name == a.name) := by
    intro ha
    rw [List.any_filter]
    congr 1
    funext b
    cases hb : b.name == a.name with
    | false => rw [Bool.and_false]
    | true => rw [hp b a (by simpa using hb), ha, Bool.true_and]
  rw [addNew]
  by_cases ha : p a = true
  · rw [if_pos ha, addNew, ← hany ha]
    split
    · rfl
    · rw [List.filter_append, List.filter_cons_of_pos ha, List.filter_nil]
  · rw [if_neg ha]
    split
    · rfl
    · rw [List.filter_append, List.filter_cons_of_neg ha, List.filter_nil, List.append_nil]

/-! ### Many annotations -/

theorem mem_names_foldl_addNew :
    x ∈ (l.foldl addNew out).map (·.name) ↔ x ∈ out.map (·.name) ∨ x ∈ l.map (·.name) := by
  induction l generalizing out with
  | nil => simp
  | cons a l ih => rw [List.foldl_cons, ih, mem_names_addNew, List.map_cons, List.mem_cons, or_assoc]

theorem nodup_foldl_addNew (hout : (out.map (·.name)).Nodup) (l : List Annotation) :
    ((l.foldl addNew out).map (·.name)).Nodup := by
  induction l generalizing out with
  | nil => exact hout
  | cons a l ih => exact ih (nodup_addNew hout a)

/-- What is there stays where it is, and the new annotations follow in their
order. -/
theorem foldl_addNew_extends (out l : List Annotation) :
    ∃ more, l.foldl addNew out = out ++ more ∧ more.Sublist l := by
  induction l generalizing out with
  | nil => exact ⟨[], (List.append_nil _).symm, List.Sublist.refl _⟩
  | cons a l ih =>
      obtain ⟨first, hfirst, hsub⟩ := addNew_extends out a
      obtain ⟨more, hmore, hrest⟩ := ih (addNew out a)
      refine ⟨first ++ more, ?_, hsub.append hrest⟩
      rw [List.foldl_cons, hmore, hfirst, List.append_assoc]

theorem find?_foldl_addNew (out l : List Annotation) (x : String) :
    (l.foldl addNew out).find? (·.name == x) = (out ++ l).find? (·.name == x) := by
  induction l generalizing out with
  | nil => rw [List.append_nil]; rfl
  | cons a l ih =>
      rw [List.foldl_cons, ih, List.find?_append, find?_addNew, ← List.find?_append,
        List.append_assoc, List.singleton_append]

theorem foldl_addNew_of_subset (h : l.map (·.name) ⊆ out.map (·.name)) :
    l.foldl addNew out = out := by
  induction l with
  | nil => rfl
  | cons a l ih =>
      rw [List.map_cons, List.cons_subset] at h
      rw [List.foldl_cons, addNew_of_mem h.1, ih h.2]

/-- Selecting by name and keeping the first of every name can be done in either
order. -/
theorem filter_foldl_addNew {p : Annotation → Bool} (hp : ∀ a b, a.name = b.name → p a = p b)
    (l out : List Annotation) :
    (l.foldl addNew out).filter p = (l.filter p).foldl addNew (out.filter p) := by
  induction l generalizing out with
  | nil => rfl
  | cons a l ih =>
      rw [List.foldl_cons, ih, filter_addNew hp]
      by_cases ha : p a = true
      · rw [if_pos ha, List.filter_cons_of_pos ha, List.foldl_cons]
      · rw [if_neg ha, List.filter_cons_of_neg ha]

/-! ### Declared and inherited annotations -/

section

variable (v : View) (d : Declaration)

theorem allAnnotations_false : v.allAnnotations d false =
    ((v.declaredAnnotations d).flatMap v.expand).foldl addNew [] := by
  rw [allAnnotations, if_neg Bool.false_ne_true, List.append_nil, mergeAndFilter]

theorem allAnnotations_true : v.allAnnotations d true =
    ((v.inheritedAnnotations d).flatMap v.expand).foldl addNew (v.allAnnotations d false) := by
  rw [allAnnotations_false, allAnnotations, if_pos rfl, mergeAndFilter, List.flatMap_append,
    List.foldl_append]

/-- Inherited annotations are put behind those that are there without them. -/
theorem exists_allAnnotations_append :
    ∃ more, v.allAnnotations d true = v.allAnnotations d false ++ more := by
  obtain ⟨more, hmore, -⟩ := foldl_addNew_extends (v.allAnnotations d false)
    ((v.inheritedAnnotations d).flatMap v.expand)
  exact ⟨more, by rw [allAnnotations_true, hmore]⟩

/-- The inherited annotations of a declaration stand back behind the declared
ones. -/
structure PutsDeclaredFirst : Prop where
  nodup : ∀ inherited, ((v.allAnnotations d inherited).map (·.name)).Nodup
  initial : v.allAnnotations d false <+: v.allAnnotations d true
  place : ∀ (i : Nat) (a : Annotation), (v.allAnnotations d false)[i]? = some a →
    (v.allAnnotations d true)[i]? = some a
  winner : ∀ x, (v.allAnnotations d true).find? (·.name == x) =
    (((v.declaredAnnotations d).flatMap v.expand).find? (·.name == x)).or
      (((v.inheritedAnnotations d).flatMap v.expand).find? (·.name == x))

/-- No name comes twice among the annotations of a declaration. The inherited ones
leave those that are there without them in their places, and one of them is seen
under a name only if nothing declared, and nothing that comes with it, has this
name. -/
theorem allAnnotations_puts_declared_first : v.PutsDeclaredFirst d := by
  obtain ⟨more, hmore⟩ := v.exists_allAnnotations_append d
  refine ⟨fun inherited => nodup_foldl_addNew (by simp) _, ⟨more, hmore.symm⟩, fun i a ha => ?_,
    fun x => ?_⟩
  · obtain ⟨hi, -⟩ := List.getElem?_eq_some_iff.mp ha
    rw [hmore, List.getElem?_append_left hi, ha]
  · rw [allAnnotations_true, find?_foldl_addNew, List.find?_append, allAnnotations_false,
      find?_foldl_addNew, List.nil_append]

end

end LintEngine.View
