import LintEngine.Proofs.Symbols.Table
import LintEngine.Proofs.Tree.Scopes
import Mathlib.Data.Finset.Card

/-!
The way outward from a class, through the classes around it.

A class of a unit has a longer name than the class around it, so a way through such
classes comes to an end. A class that is known otherwise may name any class as the one
around it, and then the way may lead back to where it was. As the table is finite, a
way without an end is one that runs in a circle.

The main statement says which ways and which searches come to an end: a way does just
if no class on it that the host registered is found around itself again, and a search
just if its way does or some class on the way has an answer.
-/

namespace LintEngine

namespace SymbolTable

variable {s : SymbolTable} {name x outer : String} {i j k n m : Nat}

def outward (s : SymbolTable) : Nat → String → Option String
  | 0, name => some name
  | n + 1, name => (s.outer? name).bind (s.outward n)

def EndsOutward (s : SymbolTable) (name : String) : Prop := ∃ n, s.outward n name = none

/-- A class stands around itself. -/
def Circles (s : SymbolTable) (name : String) : Prop := ∃ n, s.outward (n + 1) name = some name

/-! ### Ways outward -/

theorem outward_succ_of_outer? (h : s.outer? name = some outer) :
    s.outward (n + 1) name = s.outward n outer := by
  rw [outward, h, Option.bind_some]

theorem outward_succ_of_none (h : s.outer? name = none) : s.outward (n + 1) name = none := by
  rw [outward, h, Option.bind_none]

theorem outward_add (m n : Nat) (name : String) :
    s.outward (m + n) name = (s.outward m name).bind (s.outward n) := by
  induction m generalizing name with
  | zero => rw [Nat.zero_add, outward, Option.bind_some]
  | succ m ih =>
      rw [Nat.succ_add, outward, outward, Option.bind_assoc]
      exact Option.bind_congr fun outer _ => ih outer

theorem outward_eq_none_of_le (h : s.outward n name = none) (hle : n ≤ m) :
    s.outward m name = none := by
  obtain ⟨k, rfl⟩ := Nat.exists_eq_add_of_le hle
  rw [outward_add, h, Option.bind_none]

theorem EndsOutward.of_outward (h : s.EndsOutward name) (hx : s.outward k name = some x) :
    s.EndsOutward x := by
  obtain ⟨n, hn⟩ := h
  refine ⟨n, ?_⟩
  have hlater := outward_eq_none_of_le hn (Nat.le_add_left n k)
  rwa [outward_add, hx, Option.bind_some] at hlater

/-- A way that is in a circle is there again after each round. -/
theorem outward_mul (h : s.outward n x = some x) (k : Nat) : s.outward (n * k) x = some x := by
  induction k with
  | zero => rfl
  | succ k ih => rw [Nat.mul_succ, outward_add, ih, Option.bind_some, h]

theorem Circles.not_endsOutward (h : s.Circles x) : ¬s.EndsOutward x := by
  obtain ⟨n, hn⟩ := h
  rintro ⟨k, hk⟩
  have hround := outward_eq_none_of_le hk (Nat.le_mul_of_pos_left k n.succ_pos)
  rw [outward_mul hn] at hround
  cases hround

/-- All the classes in a circle are in it. -/
theorem Circles.of_outward (h : s.Circles x) (hname : s.outward k x = some name) :
    s.Circles name := by
  obtain ⟨n, hn⟩ := h
  refine ⟨n, ?_⟩
  have hround : s.outward (n + 1 + k) x = some name := by
    rw [outward_add, hn, Option.bind_some, hname]
  rwa [Nat.add_comm, outward_add, hname, Option.bind_some] at hround

/-! ### Ways that come back -/

/-- Only a class of the table has a class around it. -/
theorem class?_of_outer? (h : s.outer? name = some outer) :
    ∃ c, s.class? name = some c ∧ c.outer = some outer :=
  Option.bind_eq_some_iff.mp h

/-- A way that is longer than there are classes comes to one of them twice. -/
theorem exists_outward_eq (h : s.outward (s.classes.length + 1) name ≠ none) :
    ∃ i j, i < j ∧ j ≤ s.classes.length ∧ s.outward i name = s.outward j name := by
  let names := (s.classes.map fun c => some c.name).toFinset
  have hcard : names.card < (Finset.range (s.classes.length + 1)).card := by
    rw [Finset.card_range, Nat.lt_succ_iff]
    refine (List.toFinset_card_le _).trans ?_
    rw [List.length_map]
  have hmaps : ∀ i ∈ Finset.range (s.classes.length + 1), s.outward i name ∈ names := by
    intro i hi
    have hnext : s.outward (i + 1) name ≠ none := fun hnone =>
      h (outward_eq_none_of_le hnone (Finset.mem_range.mp hi))
    rw [outward_add] at hnext
    cases hx : s.outward i name with
    | none => rw [hx] at hnext; exact absurd rfl hnext
    | some x =>
        rw [hx, Option.bind_some] at hnext
        obtain ⟨outer, houter⟩ : ∃ outer, s.outer? x = some outer := by
          rw [← Option.ne_none_iff_exists']
          exact fun hnone => hnext (outward_succ_of_none hnone)
        obtain ⟨c, hc, -⟩ := class?_of_outer? houter
        rw [List.mem_toFinset, List.mem_map]
        exact ⟨c, mem_of_class? hc, congrArg some (name_of_class? hc)⟩
  obtain ⟨i, hi, j, hj, hne, heq⟩ := Finset.exists_ne_map_eq_of_card_lt_of_maps_to hcard hmaps
  rw [Finset.mem_range, Nat.lt_succ_iff] at hi hj
  rcases Nat.lt_or_gt_of_ne hne with hlt | hlt
  · exact ⟨i, j, hlt, hj, heq⟩
  · exact ⟨j, i, hlt, hi, heq.symm⟩

/-- Once a way has come back it meets no further classes. -/
theorem exists_lt_of_outward_eq (hlt : i < j) (heq : s.outward i name = s.outward j name)
    (k : Nat) : ∃ m < j, s.outward k name = s.outward m name := by
  induction k using Nat.strongRecOn with
  | _ k ih =>
      by_cases hk : k < j
      · exact ⟨k, hk, rfl⟩
      · obtain ⟨d, rfl⟩ := Nat.exists_eq_add_of_le (Nat.le_of_not_lt hk)
        obtain ⟨m, hm, hsame⟩ := ih (i + d) (Nat.add_lt_add_right hlt d)
        refine ⟨m, hm, ?_⟩
        rw [outward_add, ← heq, ← outward_add, hsame]

/-- All that a way comes to, it comes to within as many steps as there are classes, if
it goes on for longer. -/
theorem exists_le_of_outward (h : s.outward (s.classes.length + 1) name ≠ none) (k : Nat) :
    ∃ m ≤ s.classes.length, s.outward k name = s.outward m name := by
  obtain ⟨i, j, hlt, hle, heq⟩ := exists_outward_eq h
  obtain ⟨m, hm, hsame⟩ := exists_lt_of_outward_eq hlt heq k
  exact ⟨m, Nat.le_trans (Nat.le_of_lt hm) hle, hsame⟩

theorem endsOutward_iff : s.EndsOutward name ↔ s.outward (s.classes.length + 1) name = none := by
  constructor
  · rintro ⟨n, hn⟩
    by_contra hlong
    obtain ⟨m, hm, hsame⟩ := exists_le_of_outward hlong n
    exact hlong (outward_eq_none_of_le (hsame ▸ hn) (Nat.le_succ_of_le hm))
  · exact fun h => ⟨_, h⟩

/-- A way without an end gets into a circle. -/
theorem exists_circles (h : ¬s.EndsOutward name) :
    ∃ k x, s.outward k name = some x ∧ s.Circles x := by
  obtain ⟨i, j, hlt, -, heq⟩ := exists_outward_eq (mt endsOutward_iff.mpr h)
  obtain ⟨x, hx⟩ : ∃ x, s.outward i name = some x := by
    rw [← Option.ne_none_iff_exists']
    exact fun hnone => h ⟨i, hnone⟩
  obtain ⟨d, rfl⟩ := Nat.exists_eq_add_of_lt hlt
  refine ⟨i, x, hx, d, ?_⟩
  rwa [hx, Nat.add_assoc, outward_add, hx, Option.bind_some, eq_comm] at heq

/-! ### Searches -/

section

variable {α : Type} {ask : String → Option α} {r : Option α}

/-- A search outward that comes to an end, with its result. -/
inductive Asking (s : SymbolTable) (ask : String → Option α) : String → Option α → Prop
  | answered {name : String} {a : α} (h : ask name = some a) : Asking s ask name (some a)
  | ended {name : String} (h : ask name = none) (hlast : s.outer? name = none) :
      Asking s ask name none
  | further {name outer : String} {r : Option α} (h : ask name = none)
      (hnext : s.outer? name = some outer) (hrest : Asking s ask outer r) : Asking s ask name r

theorem askOutward_eq_some_iff : s.askOutward ask name = some r ↔ s.Asking ask name r := by
  constructor
  · refine askOutward.partial_correctness s ask (s.Asking ask) (fun search ih name r h => ?_) name r
    cases ha : ask name with
    | some a =>
        rw [ha] at h
        cases h
        exact .answered ha
    | none =>
        rw [ha] at h
        cases hnext : s.outer? name with
        | some outer =>
            rw [hnext] at h
            exact .further ha hnext (ih outer r h)
        | none =>
            rw [hnext] at h
            cases h
            exact .ended ha hnext
  · intro h
    induction h with
    | answered ha => rw [askOutward, ha]
    | ended ha hlast => rw [askOutward, ha, hlast]
    | further ha hnext _ ih => rw [askOutward, ha, hnext]; exact ih

theorem Asking.ends_or_answers (h : s.Asking ask name r) :
    s.EndsOutward name ∨ ∃ k x, s.outward k name = some x ∧ (ask x).isSome := by
  induction h with
  | @answered name a ha => exact .inr ⟨0, name, rfl, by rw [ha]; rfl⟩
  | ended _ hlast => exact .inl ⟨1, outward_succ_of_none hlast⟩
  | further _ hnext _ ih =>
      rcases ih with ⟨n, hn⟩ | ⟨k, x, hx, ha⟩
      · exact .inl ⟨n + 1, (outward_succ_of_outer? hnext).trans hn⟩
      · exact .inr ⟨k + 1, x, (outward_succ_of_outer? hnext).trans hx, ha⟩

/-- A search takes no more steps than there are to its first answer or to its end. -/
theorem exists_asking (h : ∀ x, s.outward k name = some x → (ask x).isSome) :
    ∃ r, s.Asking ask name r := by
  induction k generalizing name with
  | zero =>
      obtain ⟨a, ha⟩ := Option.isSome_iff_exists.mp (h name rfl)
      exact ⟨some a, .answered ha⟩
  | succ k ih =>
      cases ha : ask name with
      | some a => exact ⟨some a, .answered ha⟩
      | none =>
          cases hnext : s.outer? name with
          | none => exact ⟨none, .ended ha hnext⟩
          | some outer =>
              obtain ⟨r, hr⟩ := ih fun x hx => h x ((outward_succ_of_outer? hnext).trans hx)
              exact ⟨r, .further ha hnext hr⟩

/-- A search comes to an end just if its way does or some class on it has an answer. -/
theorem isSome_askOutward_iff : (s.askOutward ask name).isSome ↔
    s.EndsOutward name ∨ ∃ k x, s.outward k name = some x ∧ (ask x).isSome := by
  rw [Option.isSome_iff_exists]
  simp only [askOutward_eq_some_iff]
  constructor
  · rintro ⟨r, hr⟩
    exact hr.ends_or_answers
  · rintro (⟨n, hn⟩ | ⟨k, x, hx, ha⟩)
    · exact exists_asking fun x hx => absurd (hn.symm.trans hx) nofun
    · exact exists_asking fun y hy => Option.some.inj (hx.symm.trans hy) ▸ ha

/-- Steps taken one by one make no difference to a search. -/
theorem askFrom_eq_join (n : Nat) (name : String) :
    s.askFrom ask n name = (s.askOutward ask name).join := by
  induction n generalizing name with
  | zero => rfl
  | succ n ih =>
      rw [askFrom, askOutward]
      cases ask name with
      | some a => rfl
      | none =>
          cases s.outer? name with
          | some outer => exact ih outer
          | none => rfl

theorem askScopes_eq_join (name : String) :
    s.askScopes ask (some name) = (s.askOutward ask name).join :=
  askFrom_eq_join _ name

theorem askScopes_of_askOutward (h : s.askOutward ask name = some r) :
    s.askScopes ask (some name) = r := by
  rw [askScopes_eq_join, h, Option.join_some]

/-! ### The scopes that are asked -/

theorem mem_outerChain_iff : x ∈ s.outerChain n name ↔ ∃ k < n, s.outward k name = some x := by
  induction n generalizing name with
  | zero => simp [outerChain]
  | succ n ih =>
      rw [outerChain, List.mem_cons]
      constructor
      · rintro (rfl | hmem)
        · exact ⟨0, n.succ_pos, rfl⟩
        · split at hmem
          · rename_i outer houter
            obtain ⟨k, hk, hx⟩ := ih.mp hmem
            exact ⟨k + 1, Nat.succ_lt_succ hk, (outward_succ_of_outer? houter).trans hx⟩
          · cases hmem
      · rintro ⟨_ | k, hk, hx⟩
        · exact .inl (Option.some.inj hx).symm
        · obtain ⟨outer, houter, hx⟩ := Option.bind_eq_some_iff.mp hx
          refine .inr ?_
          rw [show (s.class? name).bind (·.outer) = some outer from houter]
          exact ih.mpr ⟨k, Nat.lt_of_succ_lt_succ hk, hx⟩

/-- The scopes give what the first steps of a search find, and the search goes on from
where they lead. -/
theorem askFrom_eq_or (n : Nat) (name : String) : s.askFrom ask n name =
    ((s.outerChain n name).findSome? ask).or
      ((s.outward n name).bind fun x => (s.askOutward ask x).join) := by
  induction n generalizing name with
  | zero => rfl
  | succ n ih =>
      rw [askFrom, outerChain, List.findSome?_cons, outward]
      cases ask name with
      | some a => rfl
      | none =>
          cases hnext : s.outer? name with
          | some outer =>
              rw [show (s.class? name).bind (·.outer) = some outer from hnext]
              exact ih outer
          | none =>
              rw [show (s.class? name).bind (·.outer) = none from hnext]
              rfl

/-- The search has the first answer of the scopes. After as many steps as there are
classes it meets no class that it has not asked. -/
theorem askScopes_eq_findSome? (name : Option String) :
    s.askScopes ask name = (s.lexicalScopes name).findSome? ask := by
  cases name with
  | none => rfl
  | some name =>
      rw [askScopes, Option.bind_some, lexicalScopes, askFrom_eq_or]
      cases hfound : (s.outerChain (s.classes.length + 1) name).findSome? ask with
      | some a => rfl
      | none =>
          rw [Option.none_or, Option.bind_eq_none_iff]
          intro x hx
          cases hresult : s.askOutward ask x with
          | none => rfl
          | some r =>
              have hlong : s.outward (s.classes.length + 1) name ≠ none := by
                rw [hx]
                exact Option.some_ne_none x
              rcases (askOutward_eq_some_iff.mp hresult).ends_or_answers with
                ⟨n, hn⟩ | ⟨k, y, hy, ha⟩
              · refine absurd (endsOutward_iff.mp ⟨s.classes.length + 1 + n, ?_⟩) hlong
                rw [outward_add, hx, Option.bind_some, hn]
              · have hfar : s.outward (s.classes.length + 1 + k) name = some y := by
                  rw [outward_add, hx, Option.bind_some, hy]
                obtain ⟨m, hm, hnear⟩ := exists_le_of_outward hlong (s.classes.length + 1 + k)
                have hmem := mem_outerChain_iff.mpr
                  ⟨m, Nat.lt_succ_of_le hm, hnear.symm.trans hfar⟩
                rw [List.findSome?_eq_none_iff.mp hfound y hmem] at ha
                cases ha

end

end SymbolTable

/-! ### What a table is made of -/

/-- What is entered into a table: the classes of a unit, or a class that the host
knows otherwise. -/
inductive Contribution where
  | unit (t : Tree)
  | host (c : ClassSymbol)

namespace Contribution

def classes : Contribution → List ClassSymbol
  | unit t => t.classSymbols
  | host c => [c]

end Contribution

namespace SymbolTable

variable {l : List Contribution} {name x outer : String}

def ofContributions (l : List Contribution) : SymbolTable :=
  ofClasses (l.flatMap Contribution.classes)

/-- The table of a run is entered unit by unit, and then class by class. -/
theorem ofUnits_eq_ofContributions (units : List Tree) (compiled : List ClassSymbol) :
    ofUnits units compiled = ofContributions (units.map .unit ++ compiled.map .host) := by
  have hcompiled : (compiled.map Contribution.host).flatMap Contribution.classes = compiled := by
    rw [List.flatMap_map]
    exact List.flatMap_singleton' compiled
  rw [ofContributions, List.flatMap_append, hcompiled, List.flatMap_map]
  rfl

/-- The way outward leads to a shorter name from every class that no host
registered. -/
theorem length_lt_of_outer? (h : (ofContributions l).outer? name = some outer)
    (hunit : ∀ c, .host c ∈ l → c.name ≠ name) : outer.length < name.length := by
  obtain ⟨c, hc, houter⟩ := class?_of_outer? h
  rw [ofContributions, class?_ofClasses] at hc
  obtain ⟨given, hgiven, rfl⟩ := Option.map_eq_some_iff.mp hc
  have hname : given.name = name :=
    beq_iff_eq.mp (List.find?_some (p := fun c : ClassSymbol => c.name == name) hgiven)
  obtain ⟨contribution, hmem, hclass⟩ := List.mem_flatMap.mp (List.mem_of_find?_eq_some hgiven)
  cases contribution with
  | host known =>
      rw [List.mem_singleton.mp hclass] at hname
      exact absurd hname (hunit known hmem)
  | unit t =>
      have hclass : given ∈ t.classSymbols := hclass
      rw [Tree.classSymbols] at hclass
      split at hclass
      · obtain ⟨k, -, hsymbol⟩ := List.mem_filterMap.mp hclass
        obtain ⟨own, hown, rfl⟩ := Option.map_eq_some_iff.mp hsymbol
        obtain ⟨around, hclass, hqualified⟩ := Option.bind_eq_some_iff.mp houter
        obtain ⟨outer', houter', hlt⟩ := Tree.qualifiedClassName_of_enclosingClass hclass hown
        rw [← hname, Option.some.inj (hqualified.symm.trans houter')]
        exact hlt
      · cases hclass

/-- No circle goes through classes of units alone. -/
theorem exists_host_of_circles (h : (ofContributions l).Circles x) :
    ∃ c k, .host c ∈ l ∧ (ofContributions l).outward k x = some c.name := by
  by_contra hnone
  have hshrinks : ∀ k y, (ofContributions l).outward k x = some y → y.length + k ≤ x.length := by
    intro k
    induction k with
    | zero => exact fun y hy => Nat.le_of_eq (congrArg String.length (Option.some.inj hy)).symm
    | succ k ih =>
        intro y hy
        rw [outward_add] at hy
        obtain ⟨z, hz, hy⟩ := Option.bind_eq_some_iff.mp hy
        obtain ⟨outer, houter, hy⟩ := Option.bind_eq_some_iff.mp hy
        obtain rfl := Option.some.inj hy
        have hlt := length_lt_of_outer? houter fun c hc heq => hnone ⟨c, k, hc, heq ▸ hz⟩
        exact Nat.le_trans (by omega) (ih z hz)
  obtain ⟨n, hn⟩ := h
  have hround := hshrinks (n + 1) x hn
  omega

theorem endsOutward_ofContributions_iff : (ofContributions l).EndsOutward name ↔
    ∀ c, .host c ∈ l → (∃ k, (ofContributions l).outward k name = some c.name) →
      ¬(ofContributions l).Circles c.name := by
  constructor
  · rintro hends c - ⟨k, hk⟩ hcircles
    exact hcircles.not_endsOutward (hends.of_outward hk)
  · intro h
    by_contra hendless
    obtain ⟨k, x, hx, hcircles⟩ := exists_circles hendless
    obtain ⟨c, m, hc, hm⟩ := exists_host_of_circles hcircles
    refine h c hc ⟨k + m, ?_⟩ (hcircles.of_outward hm)
    rw [outward_add, hx, Option.bind_some, hm]

/-- A way outward comes to an end just if no class on it that the host registered stands
around itself; so it does in every table made of units. A search on it comes to an end
just if the way does or a class on it has an answer, and then names are looked up with
its result. The table of a run is one of those that this is about. -/
theorem outward_searches_end_iff (l : List Contribution) :
    (∀ units compiled, l = units.map .unit ++ compiled.map .host →
      ofUnits units compiled = ofContributions l) ∧
    (∀ name, (ofContributions l).EndsOutward name ↔
      ∀ c, .host c ∈ l → (∃ k, (ofContributions l).outward k name = some c.name) →
        ¬(ofContributions l).Circles c.name) ∧
    (∀ (α : Type) (ask : String → Option α) (name : String),
      ((ofContributions l).askOutward ask name).isSome ↔
        (ofContributions l).EndsOutward name ∨
          ∃ k x, (ofContributions l).outward k name = some x ∧ (ask x).isSome) ∧
    ∀ (α : Type) (ask : String → Option α) (name : String),
      (ofContributions l).askScopes ask (some name) =
        ((ofContributions l).askOutward ask name).join :=
  ⟨fun units compiled hl => hl ▸ ofUnits_eq_ofContributions units compiled,
    fun _ => endsOutward_ofContributions_iff, fun _ _ _ => isSome_askOutward_iff,
    fun _ _ name => askScopes_eq_join name⟩

/-! ### A class around itself -/

def ownOuter : ClassSymbol := { ClassSymbol.compiled "A" .plain with outer := some "A" }

/-- The way outward from such a class has no end, and neither has the search for a field
that it does not have. -/
theorem ownOuter_search_endless :
    ¬(ofContributions [.host ownOuter]).EndsOutward "A" ∧
      (ofContributions [.host ownOuter]).askOutward
        (fun c => (ofContributions [.host ownOuter]).findField c "X") "A" = none := by
  have hcircle : (ofContributions [.host ownOuter]).outward 1 "A" = some "A" := by decide +kernel
  have hendless := Circles.not_endsOutward ⟨0, hcircle⟩
  refine ⟨hendless, ?_⟩
  rw [← Option.not_isSome_iff_eq_none, isSome_askOutward_iff]
  rintro (hends | ⟨k, x, hx, hfield⟩)
  · exact hendless hends
  · have hround := outward_mul hcircle k
    rw [Nat.one_mul, hx] at hround
    rw [Option.some.inj hround] at hfield
    revert hfield
    decide +kernel

end SymbolTable

end LintEngine
