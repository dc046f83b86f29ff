import LintEngine.Proofs.Symbols.Table
import Mathlib.Data.List.Flatten
import Mathlib.Data.Nat.Find

/-!
The hierarchy of a class is found by breadth-first search. The links of a known
class lead to the names of its supertypes; they may lead to unknown classes, meet
again, or lead back.

The search takes names from a queue, and `Search` is its runs without a bound on
their length. `Frontier` is what every step keeps: the queue holds names at some
distance from the start and behind them names one link farther away, and whatever
is nearer has been seen. Main statement: the search comes to its end, and the
hierarchy is exactly what can be reached, nearest first; so a member is found in a
nearest class that declares it.
-/

namespace LintEngine

namespace SymbolTable

variable {s : SymbolTable} {start x y next : String} {c : ClassSymbol}
  {seen near far queue : List String} {found : List ClassSymbol} {d m n : Nat}

/-! ### Distances -/

def Links (s : SymbolTable) (x y : String) : Prop :=
  ∃ c, s.class? x = some c ∧ (c.superclass = some y ∨ y ∈ c.interfaces)

theorem links_iff : s.Links x y ↔ ∃ c, s.class? x = some c ∧ y ∈ c.supertypes := by
  simp only [Links, ClassSymbol.supertypes, List.mem_append, Option.mem_toList]

inductive Reaches (s : SymbolTable) (start : String) : Nat → String → Prop
  | here : Reaches s start 0 start
  | link {n : Nat} {x y : String} (h : Reaches s start n x) (hlink : s.Links x y) :
      Reaches s start (n + 1) y

structure IsDistance (s : SymbolTable) (start x : String) (n : Nat) : Prop where
  reached : s.Reaches start n x
  least : ∀ m, s.Reaches start m x → n ≤ m

def NotFarther (s : SymbolTable) (start : String) (c e : ClassSymbol) : Prop :=
  ∃ m n, s.IsDistance start c.name m ∧ s.IsDistance start e.name n ∧ m ≤ n

def Inherits (s : SymbolTable) (start : String) (c : ClassSymbol) : Prop :=
  s.class? c.name = some c ∧ ∃ n, s.Reaches start n c.name

/-! ### Runs of the search -/

/-- The runs of the search from the names seen so far and a queue. Each ends with
an empty queue; its last part is the classes found. -/
inductive Search (s : SymbolTable) : List String → List String → List ClassSymbol → Prop
  | done (seen : List String) : Search s seen [] []
  | repeated {next : String} {seen queue : List String} {found : List ClassSymbol}
      (hseen : next ∈ seen) (h : Search s seen queue found) : Search s seen (next :: queue) found
  | unknown {next : String} {seen queue : List String} {found : List ClassSymbol}
      (hnew : next ∉ seen) (hc : s.class? next = none) (h : Search s (next :: seen) queue found) :
      Search s seen (next :: queue) found
  | known {next : String} {c : ClassSymbol} {seen queue : List String} {found : List ClassSymbol}
      (hnew : next ∉ seen) (hc : s.class? next = some c)
      (h : Search s (next :: seen) (queue ++ c.supertypes) found) :
      Search s seen (next :: queue) (c :: found)

def unfollowed (seen : List String) (classes : List ClassSymbol) : List String :=
  (classes.filter fun c => !seen.contains c.name).flatMap (·.supertypes)

theorem linkCount_eq (s : SymbolTable) : s.linkCount = (unfollowed [] s.classes).length + 1 := by
  rw [linkCount]
  induction s.classes with
  | nil => rfl
  | cons c classes ih =>
      rw [List.foldr_cons, ih]
      simp only [unfollowed, List.contains_nil, Bool.not_false, List.filter_true,
        List.flatMap_cons, List.length_append]
      omega

theorem length_unfollowed_cons_le (next : String) (seen : List String)
    (classes : List ClassSymbol) :
    (unfollowed (next :: seen) classes).length ≤ (unfollowed seen classes).length := by
  refine ((List.monotone_filter_right classes fun c hc => ?_).flatMap _).length_le
  rw [List.contains_cons, Bool.not_or, Bool.and_eq_true] at hc
  exact hc.2

theorem unfollowed_append (seen : List String) (before after : List ClassSymbol) :
    unfollowed seen (before ++ after) = unfollowed seen before ++ unfollowed seen after := by
  rw [unfollowed, List.filter_append, List.flatMap_append]
  rfl

theorem unfollowed_of_mem (classes : List ClassSymbol) (h : c.name ∈ seen) :
    unfollowed seen (c :: classes) = unfollowed seen classes := by
  simp [unfollowed, h]

theorem unfollowed_of_not_mem (classes : List ClassSymbol) (h : c.name ∉ seen) :
    unfollowed seen (c :: classes) = c.supertypes ++ unfollowed seen classes := by
  simp [unfollowed, h]

/-- A class that is seen now takes its links along. -/
theorem length_unfollowed_cons (hc : s.class? next = some c) (hnew : next ∉ seen) :
    (unfollowed (next :: seen) s.classes).length + c.supertypes.length ≤
      (unfollowed seen s.classes).length := by
  obtain ⟨before, after, hsplit⟩ := List.append_of_mem (mem_of_class? hc)
  have hbefore := length_unfollowed_cons_le next seen before
  have hafter := length_unfollowed_cons_le next seen after
  obtain rfl := name_of_class? hc
  rw [hsplit, unfollowed_append, unfollowed_append, unfollowed_of_mem after List.mem_cons_self,
    unfollowed_of_not_mem after hnew]
  simp only [List.length_append]
  omega

/-- A bound that covers the queue and the links still to be followed is never
reached. -/
theorem search_explore (hn : queue.length + (unfollowed seen s.classes).length ≤ n) :
    s.Search seen queue (s.explore n seen queue) := by
  induction n generalizing seen queue with
  | zero =>
      obtain rfl : queue = [] := List.length_eq_zero_iff.mp (by omega)
      exact .done seen
  | succ n ih =>
      cases queue with
      | nil => exact .done seen
      | cons next queue =>
          rw [List.length_cons] at hn
          rw [explore]
          split
          · rename_i hseen
            exact .repeated (List.contains_iff_mem.mp hseen) (ih (by omega))
          · rename_i hnew
            have hnew : next ∉ seen := fun h => hnew (List.contains_iff_mem.mpr h)
            split
            · rename_i hc
              have hle := length_unfollowed_cons_le next seen s.classes
              exact .unknown hnew hc (ih (by omega))
            · rename_i c hc
              have hle := length_unfollowed_cons hc hnew
              refine .known hnew hc (ih ?_)
              rw [List.length_append]
              omega

theorem search_hierarchy (s : SymbolTable) (start : String) :
    s.Search [] [start] (s.hierarchy start) := by
  refine search_explore (Nat.le_of_eq ?_)
  rw [linkCount_eq, List.length_singleton, Nat.add_comm]

/-! ### What every step keeps -/

/-- The queue of a search: names at a distance, and behind them names one link
farther away. -/
structure Frontier (s : SymbolTable) (start : String) (seen near far : List String) (d : Nat) :
    Prop where
  reaches_near : ∀ x ∈ near, s.Reaches start d x
  reaches_far : ∀ x ∈ far, s.Reaches start (d + 1) x
  /-- The links of what has been seen lead to what has been seen or waits. -/
  closed : ∀ x ∈ seen, ∀ y, s.Links x y → y ∈ seen ∨ y ∈ near ++ far
  nearer : ∀ m < d, ∀ x, s.Reaches start m x → x ∈ seen
  level : ∀ x, s.Reaches start d x → x ∈ seen ∨ x ∈ near

namespace Frontier

theorem initial (s : SymbolTable) (start : String) : s.Frontier start [] [start] [] 0 where
  reaches_near x hx := by
    rw [List.mem_singleton.mp hx]
    exact .here
  reaches_far x hx := absurd hx List.not_mem_nil
  closed x hx := absurd hx List.not_mem_nil
  nearer m hm := absurd hm (Nat.not_lt_zero m)
  level x hx := by
    cases hx
    exact .inr (List.mem_singleton_self _)

/-- When all names at a distance are seen, those one link farther away are all in
the queue. -/
theorem advance (h : s.Frontier start seen [] far d) : s.Frontier start seen far [] (d + 1) where
  reaches_near := h.reaches_far
  reaches_far x hx := absurd hx List.not_mem_nil
  closed x hx y hlink := by
    rw [List.append_nil]
    exact h.closed x hx y hlink
  nearer m hm x hx := by
    rcases Nat.lt_or_eq_of_le (Nat.le_of_lt_succ hm) with hm | rfl
    · exact h.nearer m hm x hx
    · exact (h.level x hx).resolve_right List.not_mem_nil
  level x hx := by
    cases hx with
    | link hy hlink => exact h.closed _ ((h.level _ hy).resolve_right List.not_mem_nil) x hlink

/-- The first name of a queue is among the nearest ones. -/
theorem exists_head (h : s.Frontier start seen near far d) (hqueue : next :: queue = near ++ far) :
    ∃ near' far' d', d ≤ d' ∧ queue = near' ++ far' ∧
      s.Frontier start seen (next :: near') far' d' := by
  cases near with
  | nil =>
      obtain rfl : next :: queue = far := hqueue
      exact ⟨queue, [], d + 1, Nat.le_succ d, (List.append_nil _).symm, h.advance⟩
  | cons x near =>
      obtain ⟨rfl, rfl⟩ := List.cons.inj hqueue
      exact ⟨near, far, d, Nat.le_refl d, rfl, h⟩

/-- A name that was seen before is taken from the queue. -/
theorem skip (h : s.Frontier start seen (next :: near) far d) (hseen : next ∈ seen) :
    s.Frontier start seen near far d where
  reaches_near x hx := h.reaches_near x (List.mem_cons_of_mem _ hx)
  reaches_far := h.reaches_far
  closed x hx y hlink := by
    rcases h.closed x hx y hlink with hy | hy
    · exact .inl hy
    · rcases List.mem_cons.mp hy with rfl | hy
      · exact .inl hseen
      · exact .inr hy
  nearer := h.nearer
  level x hx := by
    rcases h.level x hx with hx | hx
    · exact .inl hx
    · rcases List.mem_cons.mp hx with rfl | hx
      · exact .inl hseen
      · exact .inr hx

/-- A new name is taken from the queue, and what it is linked to is put behind. -/
theorem take {links : List String} (h : s.Frontier start seen (next :: near) far d)
    (hlinks : ∀ y, s.Links next y ↔ y ∈ links) :
    s.Frontier start (next :: seen) near (far ++ links) d where
  reaches_near x hx := h.reaches_near x (List.mem_cons_of_mem _ hx)
  reaches_far x hx := by
    rcases List.mem_append.mp hx with hx | hx
    · exact h.reaches_far x hx
    · exact .link (h.reaches_near next List.mem_cons_self) ((hlinks x).mpr hx)
  closed x hx y hlink := by
    rw [← List.append_assoc, List.mem_append, List.mem_cons]
    rcases List.mem_cons.mp hx with rfl | hx
    · exact .inr (.inr ((hlinks y).mp hlink))
    · rcases h.closed x hx y hlink with hy | hy
      · exact .inl (.inr hy)
      · rcases List.mem_cons.mp hy with rfl | hy
        · exact .inl (.inl rfl)
        · exact .inr (.inl hy)
  nearer m hm x hx := List.mem_cons_of_mem _ (h.nearer m hm x hx)
  level x hx := by
    rcases h.level x hx with hx | hx
    · exact .inl (List.mem_cons_of_mem _ hx)
    · rcases List.mem_cons.mp hx with rfl | hx
      · exact .inl List.mem_cons_self
      · exact .inr hx

theorem take_unknown (h : s.Frontier start seen (next :: near) far d)
    (hc : s.class? next = none) : s.Frontier start (next :: seen) near far d := by
  have hlinks : ∀ y, s.Links next y ↔ y ∈ ([] : List String) := fun y => by
    simp [links_iff, hc]
  have htake := h.take hlinks
  rwa [List.append_nil] at htake

theorem take_known (h : s.Frontier start seen (next :: near) far d)
    (hc : s.class? next = some c) :
    s.Frontier start (next :: seen) near (far ++ c.supertypes) d :=
  h.take fun y => by simp [links_iff, hc]

/-- A new name stands at the distance that its place in the queue says. -/
theorem isDistance (h : s.Frontier start seen (next :: near) far d) (hnew : next ∉ seen) :
    s.IsDistance start next d where
  reached := h.reaches_near next List.mem_cons_self
  least m hm := by
    by_contra hlt
    exact hnew (h.nearer m (Nat.lt_of_not_le hlt) next hm)

/-- With an empty queue, all that can be reached has been seen. -/
theorem mem_of_reaches (h : s.Frontier start seen [] [] d) (hx : s.Reaches start n x) :
    x ∈ seen := by
  induction hx with
  | here =>
      rcases Nat.eq_zero_or_pos d with rfl | hd
      · exact (h.level start .here).resolve_right List.not_mem_nil
      · exact h.nearer 0 hd start .here
  | link _ hlink ih => exact (h.closed _ ih _ hlink).resolve_right List.not_mem_nil

end Frontier

/-! ### What a run finds -/

namespace Search

theorem class?_eq (h : s.Search seen queue found) (hc : c ∈ found) : s.class? c.name = some c := by
  induction h with
  | done => cases hc
  | repeated _ _ ih => exact ih hc
  | unknown _ _ _ ih => exact ih hc
  | known _ hnext _ ih =>
      rcases List.mem_cons.mp hc with rfl | hc
      · rw [name_of_class? hnext]
        exact hnext
      · exact ih hc

/-- No class is found twice, and none that was seen before. -/
theorem nodup (h : s.Search seen queue found) :
    (found.map (·.name)).Nodup ∧ ∀ c ∈ found, c.name ∉ seen := by
  induction h with
  | done => exact ⟨List.nodup_nil, fun c hc => absurd hc List.not_mem_nil⟩
  | repeated _ _ ih => exact ih
  | unknown _ _ _ ih => exact ⟨ih.1, fun c hc hmem => ih.2 c hc (List.mem_cons_of_mem _ hmem)⟩
  | known hnew hnext _ ih =>
      have hname := name_of_class? hnext
      refine ⟨List.nodup_cons.mpr ⟨fun hmem => ?_, ih.1⟩, fun e he hmem => ?_⟩
      · obtain ⟨e, he, heq⟩ := List.mem_map.mp hmem
        exact ih.2 e he (List.mem_cons.mpr (.inl (heq.trans hname)))
      · rcases List.mem_cons.mp he with rfl | he
        · rw [hname] at hmem
          exact hnew hmem
        · exact ih.2 e he (List.mem_cons_of_mem _ hmem)

/-- What is found stands at least as far away as the front of the queue, and nearer
classes come first. -/
theorem distances (h : s.Search seen queue found) (hfrontier : s.Frontier start seen near far d)
    (hqueue : queue = near ++ far) :
    (∀ e ∈ found, ∃ n, d ≤ n ∧ s.IsDistance start e.name n) ∧
      found.Pairwise (s.NotFarther start) := by
  induction h generalizing near far d with
  | done => exact ⟨fun e he => absurd he List.not_mem_nil, .nil⟩
  | repeated hseen _ ih =>
      obtain ⟨near', far', d', hd, hqueue, hfrontier⟩ := hfrontier.exists_head hqueue
      obtain ⟨hfound, hpairwise⟩ := ih (hfrontier.skip hseen) hqueue
      refine ⟨fun e he => ?_, hpairwise⟩
      obtain ⟨n, hn, hdistance⟩ := hfound e he
      exact ⟨n, Nat.le_trans hd hn, hdistance⟩
  | unknown _ hc _ ih =>
      obtain ⟨near', far', d', hd, hqueue, hfrontier⟩ := hfrontier.exists_head hqueue
      obtain ⟨hfound, hpairwise⟩ := ih (hfrontier.take_unknown hc) hqueue
      refine ⟨fun e he => ?_, hpairwise⟩
      obtain ⟨n, hn, hdistance⟩ := hfound e he
      exact ⟨n, Nat.le_trans hd hn, hdistance⟩
  | known hnew hc _ ih =>
      obtain ⟨near', far', d', hd, rfl, hfrontier⟩ := hfrontier.exists_head hqueue
      obtain ⟨hfound, hpairwise⟩ := ih (hfrontier.take_known hc) (List.append_assoc ..)
      have hown := hfrontier.isDistance hnew
      rw [← name_of_class? hc] at hown
      refine ⟨fun e he => ?_, List.pairwise_cons.mpr ⟨fun e he => ?_, hpairwise⟩⟩
      · rcases List.mem_cons.mp he with rfl | he
        · exact ⟨d', hd, hown⟩
        · obtain ⟨n, hn, hdistance⟩ := hfound e he
          exact ⟨n, Nat.le_trans hd hn, hdistance⟩
      · obtain ⟨n, hn, hdistance⟩ := hfound e he
        exact ⟨d', n, hown, hdistance, hn⟩

/-- A known class that can be reached and has not been seen is found. -/
theorem mem_of_reaches (h : s.Search seen queue found)
    (hfrontier : s.Frontier start seen near far d) (hqueue : queue = near ++ far)
    (hx : s.Reaches start n x) (hc : s.class? x = some c) (hnew : x ∉ seen) : c ∈ found := by
  induction h generalizing near far d with
  | done =>
      obtain ⟨rfl, rfl⟩ := List.append_eq_nil_iff.mp hqueue.symm
      exact absurd (hfrontier.mem_of_reaches hx) hnew
  | repeated hseen _ ih =>
      obtain ⟨near', far', d', -, hqueue, hfrontier⟩ := hfrontier.exists_head hqueue
      exact ih (hfrontier.skip hseen) hqueue hnew
  | unknown _ hnext _ ih =>
      obtain ⟨near', far', d', -, hqueue, hfrontier⟩ := hfrontier.exists_head hqueue
      refine ih (hfrontier.take_unknown hnext) hqueue fun hmem => ?_
      rcases List.mem_cons.mp hmem with rfl | hmem
      · rw [hc] at hnext
        cases hnext
      · exact hnew hmem
  | @known next e _ _ _ _ hnext _ ih =>
      obtain ⟨near', far', d', -, rfl, hfrontier⟩ := hfrontier.exists_head hqueue
      by_cases heq : x = next
      · rw [heq, hnext] at hc
        exact Option.some.inj hc ▸ List.mem_cons_self
      · refine List.mem_cons_of_mem _ (ih (hfrontier.take_known hnext) (List.append_assoc ..) ?_)
        exact fun hmem => (List.mem_cons.mp hmem).elim heq hnew

end Search

/-! ### The hierarchy -/

/-- All known classes that can be reached from a name, each once, nearest first. -/
structure IsHierarchy (s : SymbolTable) (start : String) (l : List ClassSymbol) : Prop where
  mem : ∀ c, c ∈ l ↔ s.Inherits start c
  nodup : (l.map (·.name)).Nodup
  order : l.Pairwise (s.NotFarther start)
  head : ∀ c, s.class? start = some c → l.head? = some c

/-- A class with a member, such that every class that can be reached and has such a
member stands at least as far away. -/
structure IsNearest {β : Type} (s : SymbolTable) (start : String) (member? : ClassSymbol → Option β)
    (c : ClassSymbol) (b : β) : Prop where
  inherits : s.Inherits start c
  declares : member? c = some b
  nearest : ∀ e, s.Inherits start e → (member? e).isSome → s.NotFarther start c e

theorem isHierarchy_hierarchy (s : SymbolTable) (start : String) :
    s.IsHierarchy start (s.hierarchy start) := by
  have hsearch := s.search_hierarchy start
  obtain ⟨hfound, horder⟩ := hsearch.distances (Frontier.initial s start) rfl
  refine ⟨fun c => ⟨fun hc => ?_, ?_⟩, hsearch.nodup.1, horder, fun c hc => ?_⟩
  · obtain ⟨n, -, hdistance⟩ := hfound c hc
    exact ⟨hsearch.class?_eq hc, n, hdistance.reached⟩
  · rintro ⟨hc, n, hreaches⟩
    exact hsearch.mem_of_reaches (Frontier.initial s start) rfl hreaches hc List.not_mem_nil
  · obtain ⟨supertypes, hcons⟩ := exists_hierarchy_eq_cons hc
    rw [hcons]
    rfl

namespace IsHierarchy

variable {β : Type} {l : List ClassSymbol} {member? : ClassSymbol → Option β} {b : β}

/-- Every class has a distance. -/
theorem notFarther_refl (h : s.IsHierarchy start l) (hc : c ∈ l) : s.NotFarther start c c := by
  classical
  obtain ⟨-, hreached⟩ := (h.mem c).mp hc
  have hdistance : s.IsDistance start c.name (Nat.find hreached) :=
    ⟨Nat.find_spec hreached, fun m hm => Nat.find_min' hreached hm⟩
  exact ⟨_, _, hdistance, hdistance, Nat.le_refl _⟩

/-- The first class with a member is a nearest one. -/
theorem isNearest_of_findSome? (h : s.IsHierarchy start l)
    (hfound : l.findSome? (fun c => (member? c).map (c, ·)) = some (c, b)) :
    s.IsNearest start member? c b := by
  obtain ⟨before, a, after, rfl, ha, hbefore⟩ := List.findSome?_eq_some_iff.mp hfound
  obtain ⟨b', hmember, heq⟩ := Option.map_eq_some_iff.mp ha
  cases heq
  have hmem : c ∈ before ++ c :: after := List.mem_append_right _ List.mem_cons_self
  refine ⟨(h.mem c).mp hmem, hmember, fun e he hsome => ?_⟩
  rcases List.mem_append.mp ((h.mem e).mpr he) with he | he
  · have hnone := Option.map_eq_none_iff.mp (hbefore e he)
    rw [hnone] at hsome
    cases hsome
  · rcases List.mem_cons.mp he with rfl | he
    · exact h.notFarther_refl hmem
    · exact (List.pairwise_cons.mp (List.pairwise_append.mp h.order).2.1).1 e he

theorem findSome?_eq_none_iff (h : s.IsHierarchy start l) :
    l.findSome? (fun c => (member? c).map (c, ·)) = none ↔
      ∀ e, s.Inherits start e → member? e = none := by
  rw [List.findSome?_eq_none_iff]
  simp only [Option.map_eq_none_iff, h.mem]

end IsHierarchy

/-- The search for the hierarchy of a class comes to its end, and finds exactly the
known classes that can be reached, nearest first. A field or method is found in a
nearest class that declares it, and none is found only where no class declares
one. -/
theorem hierarchy_is_breadthFirst (s : SymbolTable) (start : String) :
    s.Search [] [start] (s.hierarchy start) ∧ s.IsHierarchy start (s.hierarchy start) ∧
      (∀ x c f, s.findField start x = some (c, f) → s.IsNearest start (·.field? x) c f) ∧
      (∀ x, s.findField start x = none ↔ ∀ e, s.Inherits start e → e.field? x = none) ∧
      (∀ x n c m, s.findMethod start x n = some (c, m) →
        s.IsNearest start (·.method? x n) c m) ∧
      (∀ x n, s.findMethod start x n = none ↔ ∀ e, s.Inherits start e → e.method? x n = none) := by
  have h := s.isHierarchy_hierarchy start
  exact ⟨s.search_hierarchy start, h, fun x c f => h.isNearest_of_findSome?,
    fun x => h.findSome?_eq_none_iff, fun x n c m => h.isNearest_of_findSome?,
    fun x n => h.findSome?_eq_none_iff⟩

end SymbolTable

end LintEngine
