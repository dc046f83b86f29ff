import LintEngine.Proofs.Text
import LintEngine.Proofs.Tree.PreOrder
import LintEngine.Suppression

/-!
Which directive suppresses an issue at a node.

A directive stands on a node in one of three forms, and each form asks for
nodes of certain kinds. The search goes from the node outward. It ends at the
nearest node with a directive against the issue, and there an annotation counts
before an attribute and an attribute before a comment. So a directive covers
everything below its node, and comments can only add to what is suppressed.
-/

namespace LintEngine

namespace Suppression

variable {c : Config} {i : Issue} {t : Tree} {n : NodeId}

/-! ### Directives on a node -/

/-- A declaration with a suppressing annotation, under its qualified or its
simple name, that names an issue. -/
structure Annotated (i : Issue) (t : Tree) (n : NodeId) : Prop where
  declaration : (t.kind n).isDeclaration = true
  names : ∃ a ∈ t.children n, t.kind a = .annotationUse ∧
    (∃ q ∈ suppressingAnnotations, t.name a = some q ∨ t.name a = some (Text.lastField '.' q)) ∧
    ∃ token ∈ annotationTokens t a, tokenMatches token i = true

structure Ignored (i : Issue) (t : Tree) (n : NodeId) : Prop where
  element : t.kind n = .xmlElement
  names : ∃ a ∈ t.children n, t.kind a = .xmlAttribute ∧ (t.node a).space = some "tools" ∧
    t.name a = some "ignore" ∧ ∃ value, (t.node a).value = some value ∧
      ∃ token ∈ Text.split ',' value, tokenMatches token i = true

/-- A line with a directive against an issue, for a node that the lines `above`
and the piece `own` of its own line come before: the node's own line, or else
the closest line above that is not blank. -/
inductive IsDirectiveLine (i : Issue) (above : List (List Char)) (own : List Char) (line : Nat) :
    Nat → Prop
  | same (h : lineMatches i own = true) : IsDirectiveLine i above own line line
  | above {rest blanks : List (List Char)} {text : List Char} (hown : lineMatches i own = false)
      (habove : above = rest ++ text :: blanks) (hblanks : ∀ l ∈ blanks, l.all Text.isBlank = true)
      (htext : text.all Text.isBlank = false) (h : lineMatches i text = true) :
      IsDirectiveLine i above own line (line - (blanks.length + 1))

/-- A node of a kind that comments count for, in a unit with a source, before
which a comment stands that names an issue. -/
structure Commented (c : Config) (i : Issue) (t : Tree) (n : NodeId) (line : Nat) : Prop where
  enabled : c.commentSuppression = true
  kind : carriesComments (t.kind n) = true
  names : ∃ source before above own, t.source = some source ∧
    Text.takeBytes? source.toList (min (t.node n).start source.utf8ByteSize) = some before ∧
    Text.splitChars (· == '\n') before = above ++ [own] ∧
    IsDirectiveLine i above own (t.node n).line line

inductive IsOn (c : Config) (i : Issue) (t : Tree) (n : NodeId) : Suppression → Prop
  | annotated (h : Annotated i t n) : IsOn c i t n (.onDeclaration n)
  | ignored (h : Ignored i t n) : IsOn c i t n (.onElement n)
  | commented {line : Nat} (h : Commented c i t n line) : IsOn c i t n (.comment line)

/-- The order in which directives on one node count. -/
def rank : Suppression → Nat
  | .onDeclaration _ => 0
  | .onElement _ => 1
  | .comment _ => 2

theorem lineAbove?_eq_some_iff {line k : Nat} {lines : List (List Char)} {text : List Char} :
    lineAbove? line lines = some (k, text) ↔
      ∃ blanks rest, lines = blanks ++ text :: rest ∧ (∀ l ∈ blanks, l.all Text.isBlank = true) ∧
        text.all Text.isBlank = false ∧ k = line - (blanks.length + 1) := by
  induction lines generalizing line with
  | nil => simp [lineAbove?]
  | cons l ls ih =>
      rw [lineAbove?]
      by_cases hl : l.all Text.isBlank = true
      · rw [if_pos hl, ih]
        constructor
        · rintro ⟨blanks, rest, rfl, hblanks, htext, rfl⟩
          refine ⟨l :: blanks, rest, rfl, List.forall_mem_cons.mpr ⟨hl, hblanks⟩, htext, ?_⟩
          rw [List.length_cons]
          omega
        · rintro ⟨blanks, rest, hlines, hblanks, htext, rfl⟩
          cases blanks with
          | nil =>
              cases hlines
              rw [hl] at htext
              cases htext
          | cons b blanks =>
              cases hlines
              refine ⟨blanks, rest, rfl, (List.forall_mem_cons.mp hblanks).2, htext, ?_⟩
              rw [List.length_cons]
              omega
      · rw [if_neg hl]
        constructor
        · intro h
          cases h
          exact ⟨[], ls, rfl, by simp, Bool.eq_false_iff.mpr hl, rfl⟩
        · rintro ⟨blanks, rest, hlines, hblanks, htext, rfl⟩
          cases blanks with
          | nil =>
              cases hlines
              rfl
          | cons b blanks =>
              cases hlines
              exact (hl (hblanks _ List.mem_cons_self)).elim

theorem isDirectiveLine_iff {above : List (List Char)} {own : List Char} {line k : Nat} :
    IsDirectiveLine i above own line k ↔
      (if lineMatches i own then some line
        else match lineAbove? line above.reverse with
          | some (k, l) => if lineMatches i l then some k else none
          | none => none) = some k := by
  by_cases hown : lineMatches i own = true
  · rw [if_pos hown, Option.some.injEq]
    constructor
    · rintro (_ | ⟨hnot, -⟩)
      · rfl
      · rw [hown] at hnot
        cases hnot
    · rintro rfl
      exact .same hown
  · rw [if_neg hown]
    constructor
    · rintro (h | @⟨rest, blanks, text, -, rfl, hblanks, htext, h⟩)
      · exact (hown h).elim
      · have habove : lineAbove? line (rest ++ text :: blanks).reverse =
            some (line - (blanks.length + 1), text) := by
          refine lineAbove?_eq_some_iff.mpr ⟨blanks.reverse, rest.reverse, by simp, ?_, htext, ?_⟩
          · simpa using hblanks
          · rw [List.length_reverse]
        rw [habove]
        exact if_pos h
    · intro h
      split at h
      · rename_i k' text habove
        split at h
        · rename_i htext
          cases h
          obtain ⟨blanks, rest, hlines, hblanks, hnot, rfl⟩ := lineAbove?_eq_some_iff.mp habove
          have hreverse : above = rest.reverse ++ text :: blanks.reverse := by
            rw [← List.reverse_reverse above, hlines]
            simp
          rw [← List.length_reverse]
          exact .above (Bool.eq_false_iff.mpr hown) hreverse (by simpa using hblanks) hnot htext
        · cases h
      · cases h

theorem commentLine?_eq_some_iff {line : Nat} : commentLine? t n i = some line ↔
    ∃ source before above own, t.source = some source ∧
      Text.takeBytes? source.toList (min (t.node n).start source.utf8ByteSize) = some before ∧
      Text.splitChars (· == '\n') before = above ++ [own] ∧
      IsDirectiveLine i above own (t.node n).line line := by
  simp only [commentLine?, Option.bind_eq_bind, Option.bind_eq_some_iff, isDirectiveLine_iff]
  constructor
  · rintro ⟨source, hsource, before, hbefore, h⟩
    obtain ⟨above, own, hlines⟩ := Text.exists_splitChars_eq_concat (· == '\n') before
    refine ⟨source, before, above, own, hsource, hbefore, hlines, ?_⟩
    rw [hlines, List.reverse_append] at h
    exact h
  · rintro ⟨source, before, above, own, hsource, hbefore, hlines, h⟩
    refine ⟨source, hsource, before, hbefore, ?_⟩
    rw [hlines, List.reverse_append]
    exact h

end Suppression

namespace Config

open Suppression

variable {c : Config} {i : Issue} {t : Tree} {n m k : NodeId} {s : Suppression}

/-! ### The directive that counts -/

/-- The nearest node with a directive, from `n` outward: all others are further
out. -/
structure IsNearest (c : Config) (i : Issue) (t : Tree) (n k : NodeId) : Prop where
  mem : k ∈ t.selfAndAncestors n
  carries : ∃ s, IsOn c i t k s
  nearest : ∀ m ∈ t.selfAndAncestors n, (∃ s, IsOn c i t m s) → m ∈ t.selfAndAncestors k

end Config

end LintEngine
