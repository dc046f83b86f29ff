import LintEngine.Proofs.View.Precedence
import LintEngine.Proofs.Symbols.Table
import Mathlib.Data.Finset.Card

/-!
Meta-annotations: the annotations on an annotation type, on the types of these
annotations, and so on. The types may lead back to each other.

The ways down from a type are unfolded depth first, and only a way that would enter
a type for the second time is cut off. The search takes a shorter course: it enters
no type twice at all. `IsSettled` is what it keeps: a type that it has left behind
has nothing to give that was not found already. So what it passes over would add
nothing, and it finds the first annotation of every name in the unfolding. Main
statement: an answer is this merge, whatever was asked before, and as many merges
are computed as names were asked for.
-/

namespace LintEngine

def Annotation.withoutNode (a : Annotation) : Annotation := { a with node := none }

namespace SymbolTable

variable {s : SymbolTable} {type x y : String} {a : Annotation} {path path' queries : List String}
  {m m' : Merge} {memo : Memo} {n : Nat}

/-! ### Ways down -/

/-- The annotations on an annotation type; none on what is not one. -/
def metasOn (s : SymbolTable) (type : String) : List Annotation :=
  match s.class? type with
  | some c => if c.kind == .annotationType then c.annotations else []
  | none => []

theorem mem_metasOn : a ∈ s.metasOn type ↔
    ∃ c, s.class? type = some c ∧ c.kind = .annotationType ∧ a ∈ c.annotations := by
  rw [metasOn]
  cases hc : s.class? type with
  | none => simp
  | some c => by_cases hkind : c.kind = .annotationType <;> simp [hkind]

theorem isAnnotationType_of_mem (h : a ∈ s.metasOn type) : s.isAnnotationType type = true := by
  obtain ⟨c, hc, hkind, -⟩ := mem_metasOn.mp h
  simp [isAnnotationType, hc, hkind]

inductive Includes (s : SymbolTable) (type : String) : String → Prop
  | self (h : s.isAnnotationType type = true) : Includes s type type
  | deeper {x : String} {a : Annotation} (h : Includes s type x) (ha : a ∈ s.metasOn x)
      (htype : s.isAnnotationType a.name = true) : Includes s type a.name

theorem Includes.of_meta (ha : a ∈ s.metasOn type) (h : s.Includes a.name x) :
    s.Includes type x := by
  induction h with
  | self htype => exact .deeper (.self (isAnnotationType_of_mem ha)) ha htype
  | deeper _ hb htype ih => exact .deeper ih hb htype

/-- The annotations on the ways down from a type, depth first: each annotation on
the type is followed by those on its own type. A way does not enter a type that it
leads through. -/
def unfolding (s : SymbolTable) (path : List String) (type : String) : List Annotation :=
  if type ∈ path then []
  else (s.metasOn type).attach.flatMap fun a => a.1 :: s.unfolding (type :: path) a.1.name
termination_by s.unseen path
decreasing_by
  rename_i hnew
  obtain ⟨c, hc, -⟩ := mem_metasOn.mp a.2
  exact unseen_cons_lt hc hnew

theorem unfolding_of_not_mem (h : type ∉ path) :
    s.unfolding path type =
      (s.metasOn type).flatMap fun a => a :: s.unfolding (type :: path) a.name := by
  rw [unfolding, if_neg h]
  simp

theorem exists_includes_of_mem_unfolding (h : a ∈ s.unfolding path type) :
    ∃ x, s.Includes type x ∧ a ∈ s.metasOn x := by
  fun_induction unfolding s path type with
  | case1 => simp at h
  | case2 path type hnew ih =>
      obtain ⟨⟨b, hb⟩, -, hmem⟩ := List.mem_flatMap.mp h
      rcases List.mem_cons.mp hmem with rfl | hmem
      · exact ⟨type, .self (isAnnotationType_of_mem hb), hb⟩
      · obtain ⟨x, hx, ha⟩ := ih ⟨b, hb⟩ hmem
        exact ⟨x, hx.of_meta hb, ha⟩

/-! ### The search -/

namespace Merge

def names (m : Merge) : List String := m.found.map (·.name)

def addAll (m : Merge) (l : List Annotation) : List Annotation :=
  (l.map Annotation.withoutNode).foldl View.addNew m.found

theorem found_add (m : Merge) (a : Annotation) :
    (m.add a).found = View.addNew m.found a.withoutNode := by
  rw [add, View.addNew, Annotation.withoutNode]
  split <;> rfl

@[simp] theorem visited_add (m : Merge) (a : Annotation) : (m.add a).visited = m.visited := by
  rw [add]
  split <;> rfl

theorem names_subset_add (m : Merge) (a : Annotation) : m.names ⊆ (m.add a).names := by
  intro x hx
  rw [names, found_add, View.mem_names_addNew]
  exact .inl hx

theorem mem_names_add (m : Merge) (a : Annotation) : a.name ∈ (m.add a).names := by
  rw [names, found_add, View.mem_names_addNew]
  exact .inr rfl

/-- What was visited and left again has given all it has. -/
structure IsSettled (s : SymbolTable) (path : List String) (m : Merge) : Prop where
  entered : path ⊆ m.visited
  closed : ∀ x ∈ m.visited, x ∉ path → ∀ a ∈ s.metasOn x, a.name ∈ m.visited ∧ a.name ∈ m.names

structure Finds (s : SymbolTable) (path : List String) (l : List Annotation) (m m' : Merge) :
    Prop where
  found : m'.found = m.addAll l
  visited : m.visited ⊆ m'.visited
  settled : m'.IsSettled s path

namespace Finds

theorem nothing (h : m.IsSettled s path) : Finds s path [] m m := ⟨rfl, List.Subset.refl _, h⟩

theorem trans {m'' : Merge} {l l' : List Annotation} (h : Finds s path l m m')
    (h' : Finds s path l' m' m'') : Finds s path (l ++ l') m m'' where
  found := by rw [h'.found, addAll, h.found, addAll, addAll, List.map_append, List.foldl_append]
  visited := List.Subset.trans h.visited h'.visited
  settled := h'.settled

theorem names_subset {l : List Annotation} (h : Finds s path l m m') : m.names ⊆ m'.names := by
  intro x hx
  rw [names, h.found]
  exact View.mem_names_foldl_addNew.mpr (.inl hx)

theorem add (h : m.IsSettled s path) (a : Annotation) : Finds s path [a] m (m.add a) where
  found := by rw [found_add]; rfl
  visited := by simp
  settled := by
    refine ⟨by simpa using h.entered, fun x hx hpath b hb => ?_⟩
    rw [visited_add] at hx ⊢
    obtain ⟨hvisited, hname⟩ := h.closed x hx hpath b hb
    exact ⟨hvisited, m.names_subset_add a hname⟩

end Finds

namespace IsSettled

/-- The ways down from a visited type lead to nothing new. -/
theorem unfolding_subset (h : m.IsSettled s path) (hpath : path ⊆ path') (hx : x ∈ m.visited) :
    (s.unfolding path' x).map (·.name) ⊆ m.names := by
  suffices hnames : ∀ a ∈ s.unfolding path' x, a.name ∈ m.names by
    intro y hy
    obtain ⟨a, ha, rfl⟩ := List.mem_map.mp hy
    exact hnames a ha
  intro a ha
  fun_induction unfolding s path' x with
  | case1 => simp at ha
  | case2 path' x hnew ih =>
      obtain ⟨⟨b, hb⟩, -, hmem⟩ := List.mem_flatMap.mp ha
      -- a type off the way is one that was left, so its annotations lead to visited types
      obtain ⟨hvisited, hname⟩ := h.closed x hx (fun hmem => hnew (hpath hmem)) b hb
      rcases List.mem_cons.mp hmem with rfl | hmem
      · exact hname
      · exact ih ⟨b, hb⟩ (List.subset_cons_of_subset x hpath) hvisited hmem

theorem finds_of_mem (h : m.IsSettled s path) (hx : x ∈ m.visited) :
    Finds s path (s.unfolding path x) m m where
  found := by
    refine (View.foldl_addNew_of_subset ?_).symm
    rw [List.map_map]
    exact h.unfolding_subset (List.Subset.refl _) hx
  visited := List.Subset.refl _
  settled := h

theorem enter (h : m.IsSettled s path) (x : String) :
    IsSettled s (x :: path) { m with visited := x :: m.visited } where
  entered := List.cons_subset_cons x h.entered
  closed y hy hpath a ha := by
    rw [List.mem_cons, not_or] at hpath
    obtain ⟨hvisited, hname⟩ :=
      h.closed y ((List.mem_cons.mp hy).resolve_left hpath.1) hpath.2 a ha
    exact ⟨List.mem_cons_of_mem x hvisited, hname⟩

theorem leave (h : m.IsSettled s (x :: path))
    (hx : ∀ a ∈ s.metasOn x, a.name ∈ m.visited ∧ a.name ∈ m.names) : m.IsSettled s path where
  entered := List.Subset.trans (List.subset_cons_self x path) h.entered
  closed y hy hpath a ha := by
    by_cases heq : y = x
    · exact hx a (heq ▸ ha)
    · exact h.closed y hy (List.not_mem_cons_of_ne_of_not_mem heq hpath) a ha

end IsSettled

end Merge

open Merge

def collectEach (s : SymbolTable) (n : Nat) (m : Merge) (l : List Annotation) : Merge :=
  l.foldl (fun m a => s.collect n (m.add a) a.name) m

theorem collect_succ (s : SymbolTable) (n : Nat) (m : Merge) (type : String) :
    s.collect (n + 1) m type =
      if type ∈ m.visited then m
      else s.collectEach n { m with visited := type :: m.visited } (s.metasOn type) := by
  rw [collect, collectEach, metasOn]
  cases s.class? type with
  | none => simp
  | some c => cases hkind : c.kind == .annotationType <;> simp [hkind]

theorem finds_collectEach {l : List Annotation} (h : m.IsSettled s path)
    (hn : l ≠ [] → s.unseen m.visited < n)
    (hcollect : ∀ m type, m.IsSettled s path → s.unseen m.visited < n →
      Finds s path (s.unfolding path type) m (s.collect n m type) ∧
        type ∈ (s.collect n m type).visited) :
    Finds s path (l.flatMap fun a => a :: s.unfolding path a.name) m (s.collectEach n m l) ∧
      ∀ a ∈ l, a.name ∈ (s.collectEach n m l).visited ∧ a.name ∈ (s.collectEach n m l).names := by
  induction l generalizing m with
  | nil => exact ⟨.nothing h, by simp⟩
  | cons a l ih =>
      have hadd := Finds.add h a
      have hlt : s.unseen (m.add a).visited < n := by simpa using hn
      obtain ⟨hfinds, hvisited⟩ := hcollect (m.add a) a.name hadd.settled hlt
      obtain ⟨hall, hnames⟩ :=
        ih hfinds.settled fun _ => (unseen_mono hfinds.visited).trans_lt hlt
      refine ⟨(hadd.trans hfinds).trans hall, ?_⟩
      rw [List.forall_mem_cons]
      have hname := hall.names_subset (hfinds.names_subset (m.mem_names_add a))
      exact ⟨⟨hall.visited hvisited, hname⟩, hnames⟩

/-- A bound above the number of types not visited is never reached: the search finds
what the unfolding of a type adds. -/
theorem finds_collect (h : m.IsSettled s path) (hn : s.unseen m.visited < n) :
    Finds s path (s.unfolding path type) m (s.collect n m type) ∧
      type ∈ (s.collect n m type).visited := by
  induction n generalizing m path type with
  | zero => omega
  | succ n ih =>
      rw [collect_succ]
      split
      · rename_i hvisited
        exact ⟨h.finds_of_mem hvisited, hvisited⟩
      · rename_i hnew
        have hpath : type ∉ path := fun hmem => hnew (h.entered hmem)
        have hrest : s.metasOn type ≠ [] → s.unseen (type :: m.visited) < n := by
          intro hne
          obtain ⟨a, ha⟩ := List.exists_mem_of_ne_nil _ hne
          obtain ⟨c, hc, -⟩ := mem_metasOn.mp ha
          have hlt := unseen_cons_lt hc hnew
          omega
        -- the type lies on the way until all annotations on it have been followed
        obtain ⟨hall, hnames⟩ := finds_collectEach (h.enter type) hrest fun m type => ih
        rw [unfolding_of_not_mem hpath]
        refine ⟨⟨hall.found, ?_, hall.settled.leave hnames⟩, hall.visited List.mem_cons_self⟩
        exact List.Subset.trans (List.subset_cons_self type m.visited) hall.visited

/-! ### The merge -/

/-- The annotations on an annotation type and on all that it includes: of each name
the first one on the ways down, and without its node. -/
structure IsMerge (s : SymbolTable) (type : String) (l : List Annotation) : Prop where
  mem : ∀ x, x ∈ l.map (·.name) ↔ ∃ t, s.Includes type t ∧ ∃ a ∈ s.metasOn t, a.name = x
  nodup : (l.map (·.name)).Nodup
  first : ∀ x, l.find? (·.name == x) =
    ((s.unfolding [] type).find? (·.name == x)).map Annotation.withoutNode
  order : l.Sublist ((s.unfolding [] type).map Annotation.withoutNode)
  nothing : s.isAnnotationType type = false → l = []

theorem finds_metaAnnotations (s : SymbolTable) (type : String) :
    Finds s [] (s.unfolding [] type) {} (s.collect (s.classes.length + 1) {} type) ∧
      type ∈ (s.collect (s.classes.length + 1) {} type).visited :=
  finds_collect ⟨List.Subset.refl _, by simp⟩ (Nat.lt_succ_of_le (s.unseen_le_length []))

theorem metaAnnotations_eq (s : SymbolTable) (type : String) :
    s.metaAnnotations type =
      ((s.unfolding [] type).map Annotation.withoutNode).foldl View.addNew [] :=
  (s.finds_metaAnnotations type).1.found

theorem mem_visited_of_includes (h : s.Includes type x) :
    x ∈ (s.collect (s.classes.length + 1) {} type).visited := by
  obtain ⟨hfinds, hvisited⟩ := s.finds_metaAnnotations type
  induction h with
  | self => exact hvisited
  | deeper _ ha _ ih => exact (hfinds.settled.closed _ ih List.not_mem_nil _ ha).1

theorem isMerge_metaAnnotations (s : SymbolTable) (type : String) :
    s.IsMerge type (s.metaAnnotations type) where
  mem x := by
    constructor
    · intro hx
      rw [metaAnnotations_eq, View.mem_names_foldl_addNew, List.map_map] at hx
      obtain ⟨a, ha, rfl⟩ := List.mem_map.mp (hx.resolve_left List.not_mem_nil)
      obtain ⟨t, ht, hmeta⟩ := exists_includes_of_mem_unfolding ha
      exact ⟨t, ht, a, hmeta, rfl⟩
    · rintro ⟨t, ht, a, ha, rfl⟩
      have hsettled := (s.finds_metaAnnotations type).1.settled
      exact (hsettled.closed t (mem_visited_of_includes ht) List.not_mem_nil a ha).2
  nodup := by
    rw [metaAnnotations_eq]
    exact View.nodup_foldl_addNew (by simp) _
  first x := by
    rw [metaAnnotations_eq, View.find?_foldl_addNew, List.nil_append, List.find?_map]
    rfl
  order := by
    obtain ⟨more, hmore, hsub⟩ :=
      View.foldl_addNew_extends [] ((s.unfolding [] type).map Annotation.withoutNode)
    rwa [metaAnnotations_eq, hmore, List.nil_append]
  nothing h := by
    have hnil : s.metasOn type = [] := by
      refine List.eq_nil_iff_forall_not_mem.mpr fun a ha => ?_
      simp [isAnnotationType_of_mem ha] at h
    rw [metaAnnotations_eq, unfolding_of_not_mem List.not_mem_nil, hnil]
    rfl

/-! ### Answers that are kept -/

def memoAfter (s : SymbolTable) (queries : List String) : Memo :=
  queries.foldl (fun memo type => (s.mergedAnnotations memo type).2) {}

structure Memo.Keeps (s : SymbolTable) (queries : List String) (memo : Memo) : Prop where
  lookup : ∀ x, memo.entries.lookup x = if x ∈ queries then some (s.metaAnnotations x) else none
  computed : memo.computed = queries.toFinset.card

namespace Memo.Keeps

theorem answer (h : memo.Keeps s queries) (type : String) :
    (s.mergedAnnotations memo type).1 = s.metaAnnotations type := by
  rw [mergedAnnotations, h.lookup]
  by_cases hmem : type ∈ queries
  · rw [if_pos hmem]
  · rw [if_neg hmem]

theorem ask (h : memo.Keeps s queries) (type : String) :
    (s.mergedAnnotations memo type).2.Keeps s (queries ++ [type]) := by
  have hset : (queries ++ [type]).toFinset = insert type queries.toFinset := by
    ext x
    simp
  rw [mergedAnnotations, h.lookup]
  by_cases hmem : type ∈ queries
  · rw [if_pos hmem]
    refine ⟨fun x => ?_, ?_⟩
    · have hiff : x ∈ queries ++ [type] ↔ x ∈ queries := by
        simpa using fun hx => hx ▸ hmem
      simp only [h.lookup, hiff]
    · rw [hset, Finset.insert_eq_of_mem (List.mem_toFinset.mpr hmem)]
      exact h.computed
  · rw [if_neg hmem]
    refine ⟨fun x => ?_, ?_⟩
    · by_cases hx : x = type
      · simp [hx]
      · have hne : (x == type) = false := beq_eq_false_iff_ne.mpr hx
        simp [List.lookup_cons, hne, hx, h.lookup]
    · rw [hset, Finset.card_insert_of_notMem (mt List.mem_toFinset.mp hmem), ← h.computed]

end Memo.Keeps

theorem keeps_memoAfter (s : SymbolTable) (queries : List String) :
    (s.memoAfter queries).Keeps s queries := by
  induction queries using List.reverseRecOn with
  | nil => exact ⟨fun _ => rfl, rfl⟩
  | append_singleton queries type ih =>
      rw [memoAfter, List.foldl_append]
      exact ih.ask type

/-- Whatever was asked for before, the answer is the merge of all that an annotation
type includes, and as many merges were computed as names were asked for. -/
theorem merges_do_not_depend_on_history (s : SymbolTable) (queries : List String) (type : String) :
    s.IsMerge type (s.mergedAnnotations (s.memoAfter queries) type).1 ∧
      (s.mergedAnnotations (s.memoAfter queries) type).1 = (s.mergedAnnotations {} type).1 ∧
      (s.memoAfter queries).computed = queries.toFinset.card := by
  have hkeeps := s.keeps_memoAfter queries
  have hfresh := s.keeps_memoAfter []
  rw [hkeeps.answer]
  exact ⟨s.isMerge_metaAnnotations type, (hfresh.answer type).symm, hkeeps.computed⟩

end SymbolTable

end LintEngine
