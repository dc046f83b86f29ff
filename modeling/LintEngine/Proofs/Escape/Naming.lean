import LintEngine.Proofs.Escape.Holders
import LintEngine.Proofs.View.Naming
import Mathlib.Tactic.IntervalCases

/-!
Whether a value may be named without becoming a leak.

A value that is returned, stored or handed over escapes, also if it stands there in
parentheses, cast, or in a branch of a conditional expression: the search for its
outcome goes outward through all of these. If the value is named first, the outcome is
that of a variable, and this search looks at the node that holds the mention; it
passes over parentheses and casts only. Main statement: the named value escapes too
just if no conditional expression stands between it and the place where it escapes,
and is a leak otherwise.
-/

namespace LintEngine

theorem Tree.lt_size_of_qualifier {t : Tree} {n q : NodeId} (h : t.qualifier n = some q) :
    n < t.size := by
  by_contra hout
  rw [qualifier, node, Array.getD_eq_getD_getElem?,
    Array.getElem?_eq_none (Nat.le_of_not_lt hout)] at h
  cases h

theorem Tree.Ordered.head_lt_second {t : Tree} (h : t.Ordered) {n c d : NodeId}
    (hfirst : (t.children n).head? = some c) (hsecond : (t.children n)[1]? = some d) : c < d := by
  have hsorted := h.children_sorted (n := n)
  cases hchildren : t.children n with
  | nil => simp [hchildren] at hfirst
  | cons first rest =>
      rw [hchildren] at hfirst hsecond hsorted
      cases hfirst
      exact (List.pairwise_cons.mp hsorted).1 d (List.mem_of_getElem? hsecond)

namespace Escape.Tracker

variable {k : Tracker} {t' : Tree} {p c e s r : NodeId} {x : String} {o : Outcome}

def withTree (k : Tracker) (t' : Tree) : Tracker := { k with view := k.view.withTree t' }

/-- A node lets the value of one of its children escape: it returns it, builds an
object or an array with it, hands it to a call that keeps it, or stores it where no
local variable is. -/
inductive Releases (k : Tracker) (p c : NodeId) : Prop
  | kept (hkind : k.view.tree.kind p ∈ [.ret, .new, .arrayInit])
      (hmem : c ∈ k.view.tree.children p)
  | argument (hkind : k.view.tree.kind p = .call) (hmem : c ∈ k.view.tree.children p)
      (hargument : k.view.tree.qualifier p ≠ some c) (hkeeps : k.callKeeps p = true)
  | stored (hkind : k.view.tree.kind p = .assignment)
      (hright : (k.view.tree.children p)[1]? = some c)
      (htarget : ∀ d, ¬k.Targets p (.localNode d))

/-- A value stands where it escapes, perhaps in parentheses, cast or in a branch of a
conditional expression. -/
structure Stands (k : Tracker) (p c e s : NodeId) : Prop where
  value : k.view.tree.kind e = .call ∨ k.view.tree.kind e = .new
  releases : k.Releases p c
  flows : k.view.tree.Flows c e
  statement : s ∈ k.view.tree.selfAndAncestors p

theorem Releases.mem_children (h : k.Releases p c) : c ∈ k.view.tree.children p := by
  cases h with
  | kept _ hmem => exact hmem
  | argument _ hmem => exact hmem
  | stored _ hright => exact List.mem_of_getElem? hright

theorem Releases.kind_ne (h : k.Releases p c) : k.view.tree.kind p ≠ .localVariable := by
  intro hlocal
  cases h with
  | kept hkind => simp [hlocal] at hkind
  | argument hkind => simp [hlocal] at hkind
  | stored hkind => simp [hlocal] at hkind

/-! ### The value itself -/

section

variable (hordered : k.view.tree.Ordered)

include hordered

/-- The search goes outward along the way of the value. -/
theorem trackValue_of_flows (hflows : k.view.tree.Flows c r) : k.trackValue r = k.trackValue c := by
  induction hflows with
  | self => rfl
  | @through n inner m hkind hlast _ ih =>
      have hparent := hordered.mem_children.mp (List.mem_of_getLast? hlast)
      rw [ih, trackValue, hparent]
      simp only [(hordered.parent_lt hparent).1, dite_true]
      cases hn : k.view.tree.kind n with
      | parenthesized => rfl
      | cast => rfl
      | _ => simp [hn, NodeKind.isTransparent] at hkind
  | @branch n inner m hkind hmem hbranch _ ih =>
      have hparent := hordered.mem_children.mp hmem
      rw [ih, trackValue, hparent]
      simp only [(hordered.parent_lt hparent).1, dite_true, hkind]
      rw [if_pos (bne_iff_ne.mpr hbranch)]

theorem trackValue_of_releases (h : k.Releases p c) : k.trackValue c = .escaped := by
  have hparent := hordered.mem_children.mp h.mem_children
  rw [trackValue, hparent]
  cases h with
  | kept hkind =>
      simp only [List.mem_cons, List.not_mem_nil, or_false] at hkind
      rcases hkind with hkind | hkind | hkind <;> simp only [hkind]
  | argument hkind _ hargument hkeeps =>
      simp only [hkind, hkeeps, if_true]
      rw [if_neg (by simpa using hargument)]
  | stored hkind hright htarget =>
      simp only [hkind]
      cases hhead : (k.view.tree.children p).head? with
      | none => rfl
      | some target =>
          have hne := Nat.ne_of_lt (hordered.head_lt_second hhead hright)
          simp only [beq_iff_eq, hne, if_false]
          split
          · rename_i holder hresolve
            exact absurd ⟨target, hhead, hresolve⟩ (htarget holder)
          · rfl

theorem Stands.trackValue_eq (h : k.Stands p c e s) : k.trackValue e = .escaped := by
  rw [trackValue_of_flows hordered h.flows, trackValue_of_releases hordered h.releases]

/-! ### Where the value stands -/

theorem Stands.parent (h : k.Stands p c e s) : k.view.tree.parent c = some p :=
  hordered.mem_children.mp h.releases.mem_children

theorem Stands.child_mem (h : k.Stands p c e s) : c ∈ k.view.tree.selfAndAncestors e :=
  hordered.mem_selfAndAncestors_of_flows h.flows

theorem Stands.mem (h : k.Stands p c e s) : p ∈ k.view.tree.selfAndAncestors e :=
  Tree.mem_selfAndAncestors_trans (hordered.parent_mem_selfAndAncestors (h.parent hordered))
    (h.child_mem hordered)

theorem Stands.lt (h : k.Stands p c e s) : p < e :=
  Nat.lt_of_lt_of_le (hordered.parent_lt (h.parent hordered)).1
    (Tree.le_of_mem_selfAndAncestors (h.child_mem hordered))

omit hordered in
theorem Stands.lt_size (h : k.Stands p c e s) : e < k.view.tree.size := by
  refine Tree.lt_size_of_kind fun hother => ?_
  have hvalue := h.value
  simp [hother] at hvalue

/-- No variable is declared on the way to the value. -/
theorem Stands.kind_ne (h : k.Stands p c e s) :
    ∀ d ∈ k.view.tree.selfAndAncestors e, p ≤ d → k.view.tree.kind d ≠ .localVariable := by
  intro d hd hle hlocal
  rcases Nat.eq_or_lt_of_le hle with rfl | hlt
  · exact h.releases.kind_ne hlocal
  · have hcd := hordered.child_le_of_lt (h.parent hordered) (h.child_mem hordered) hd hlt
    rcases hordered.kind_of_flows h.flows hd hcd with rfl | hkind | hkind
    · have hvalue := h.value
      simp [hlocal] at hvalue
    · simp [hlocal, NodeKind.isTransparent] at hkind
    · simp [hlocal] at hkind

/-- What is around the place where the value escapes is around the parent of the
value. -/
theorem Stands.exists_parent (h : k.Stands p c e s) : ∃ q, k.view.tree.parent e = some q ∧
    p ∈ k.view.tree.selfAndAncestors q ∧ e ∉ k.view.tree.selfAndAncestors q := by
  have hmem := (List.mem_cons.mp (h.mem hordered)).resolve_left (Nat.ne_of_lt (h.lt hordered))
  cases hq : k.view.tree.parent e with
  | none =>
      rw [Tree.ancestors_eq_nil hq] at hmem
      cases hmem
  | some q =>
      rw [hordered.ancestors_of_parent hq] at hmem
      refine ⟨q, rfl, hmem, fun hup => ?_⟩
      have hle := Tree.le_of_mem_selfAndAncestors hup
      exact absurd (hordered.parent_lt hq).1 (Nat.not_lt.mpr hle)

/-- The scope of a variable is around the node that it is declared in. -/
theorem scopeOf_mem {v b : NodeId} (hparent : k.view.tree.parent v = some b) :
    k.scopeOf v ∈ k.view.tree.selfAndAncestors b := by
  rw [scopeOf]
  cases hmethod : k.view.tree.enclosingMethod v with
  | some m =>
      show m ∈ _
      rw [← hordered.ancestors_of_parent hparent]
      exact (List.takeWhile_sublist _).subset (List.mem_of_find?_eq_some hmethod)
  | none =>
      rw [hparent]
      exact Tree.self_mem_selfAndAncestors

theorem Stands.place_lt (h : k.Stands p c e s) : p < k.view.tree.size :=
  Nat.lt_trans (h.lt hordered) h.lt_size

/-- The other children at the place where the value escapes. -/
theorem Stands.isAside {n : NodeId} (h : k.Stands p c e s) (hn : n ∈ k.view.tree.children p)
    (hne : n ≠ c) : k.view.tree.IsAside e p n :=
  .of_sibling hordered (h.parent hordered) (h.child_mem hordered) (hordered.mem_children.mp hn) hne

end

/-! ### The named value -/

section

variable (a : k.view.tree.Naming t' x e s) (hordered : k.view.tree.Ordered)
  (hordered' : t'.Ordered) (h : k.Stands p c e s)

include hordered h

theorem Stands.block_lt : a.block < p :=
  Nat.lt_of_lt_of_le (hordered.parent_lt (a.parent_statement hordered)).1
    (Tree.le_of_mem_selfAndAncestors h.statement)

include hordered'

def Stands.embedding
    (hqualifiers : ∀ n q, k.view.tree.qualifier n = some q → q ∈ k.view.tree.children n) :
    k.view.tree.Embedding t' :=
  a.embedding hordered hordered' hqualifiers h.value h.lt_size (h.mem hordered) h.statement
    (h.kind_ne hordered)

/-- What is around the place where the value escapes is around the mention. -/
theorem Stands.place_mem {n : NodeId} (hn : n ∈ k.view.tree.selfAndAncestors p) :
    a.place n ∈ t'.selfAndAncestors a.mention := by
  obtain ⟨q, hq, hp, hout⟩ := h.exists_parent hordered
  have hlt := hordered.parent_lt hq
  have hmem := Tree.mem_selfAndAncestors_trans hn hp
  refine Tree.mem_selfAndAncestors_of_mem ?_
  rw [hordered'.ancestors_of_parent (a.parent_mention hordered hordered' hq), Tree.selfAndAncestors,
    a.ancestors_place hordered hordered' (Nat.lt_trans hlt.1 hlt.2) hout, ← List.map_cons]
  exact List.mem_map_of_mem hmem

theorem Stands.names_mention : (k.withTree t').Names a.mention a.declared := by
  obtain ⟨q, hq, hp, hout⟩ := h.exists_parent hordered
  refine ⟨x, a.name_mention, ?_⟩
  have hlt := hordered.parent_lt hq
  have hqs := Nat.lt_trans hlt.1 hlt.2
  have hblock := Nat.lt_of_lt_of_le (h.block_lt a hordered) (Tree.le_of_mem_selfAndAncestors hp)
  show t'.resolveLocal x a.mention = some a.declared
  rw [hordered'.resolveLocal_of_parent (a.parent_mention hordered hordered' hq),
    a.declaredIn_fresh hordered hordered' h.lt_size hqs (Nat.ne_of_gt hblock),
    a.resolveLocal_fresh hordered hordered' h.lt_size hqs
      (Tree.mem_selfAndAncestors_trans h.statement hp) hout]
  rfl

theorem Stands.isMention : (k.withTree t').IsMention a.declared a.mention where
  kind := a.kind_mention
  later := by
    have hsorted := hordered'.children_sorted (n := a.place a.block)
    rw [a.inserted, List.pairwise_append, List.pairwise_cons] at hsorted
    have hle := Tree.le_of_mem_selfAndAncestors (h.place_mem a hordered hordered' h.statement)
    exact Nat.lt_of_lt_of_le (hsorted.2.1.1 _ List.mem_cons_self) hle
  scope := by
    have hblock := Tree.mem_selfAndAncestors_trans
      (hordered.parent_mem_selfAndAncestors (a.parent_statement hordered)) h.statement
    exact Tree.mem_selfAndAncestors_trans
      (scopeOf_mem (k := k.withTree t') hordered' (a.parent_declared hordered'))
      (h.place_mem a hordered hordered' hblock)

/-- Nothing else refers to the variable. -/
theorem Stands.eq_mention (hmention : (k.withTree t').IsMention a.declared r)
    (hnames : (k.withTree t').Names r a.declared) : r = a.mention := by
  obtain ⟨y, hy, hresolve⟩ := hnames
  obtain ⟨scope, -, child, hdeclared⟩ := Tree.exists_of_resolveThrough hresolve
  have hx : t'.name a.declared = some y := (Tree.of_declaredIn hdeclared).2.1
  rw [a.name_declared] at hx
  rcases a.eq_of_name hordered hordered' h.lt_size (hy.trans hx.symm) with rfl | rfl
  · have hkind := hmention.kind
    rw [show (k.withTree t').view.tree.kind a.declared = _ from a.kind_declared] at hkind
    cases hkind
  · rfl

theorem Stands.eq_of_tracked (huse : ∀ d, (k.withTree t').use a.mention ≠ .copies d)
    (htracked : (k.withTree t').Tracked a.declared r) : r = a.mention := by
  induction htracked with
  | own hmention hnames => exact h.eq_mention a hordered hordered' hmention hnames
  | copy _ _ hcopies _ _ ih =>
      rw [ih] at hcopies
      exact absurd (use_of_copies (k := k.withTree t') hordered' a.kind_mention hcopies) (huse _)

theorem Stands.track_of_ends (hends : (k.withTree t').Ends a.mention o) :
    (k.withTree t').track a.declared = o := by
  have huse := use_of_ends (k := k.withTree t') hordered' a.kind_mention hends
  refine (track_eq_iff (k := k.withTree t') hordered').mpr (.inl ⟨a.mention, ?_, hends, ?_⟩)
  · exact .own (h.isMention a hordered hordered') (h.names_mention a hordered hordered')
  · intro r htracked _ _
    refine Nat.le_of_eq (h.eq_of_tracked a hordered hordered' (fun d hd => ?_) htracked).symm
    rw [huse] at hd
    cases hd

theorem Stands.track_of_nothing (huse : (k.withTree t').use a.mention = .nothing) :
    (k.withTree t').track a.declared = .leaked := by
  refine (track_eq_leaked_iff (k := k.withTree t') hordered').mpr fun r htracked o hends => ?_
  have hr := h.eq_of_tracked a hordered hordered' (fun d hd => by simp [huse] at hd) htracked
  rw [hr] at hends
  have hends := use_of_ends (k := k.withTree t') hordered' a.kind_mention hends
  simp [huse] at hends

omit h in
/-- The outcome of the named value is that of the variable. -/
theorem trackValue_place :
    (k.withTree t').trackValue (a.place e) = (k.withTree t').track a.declared := by
  have hblock := hordered.parent_lt (a.parent_statement hordered)
  have hopen : (k.withTree t').isResource a.declared = false := by
    refine Bool.eq_false_iff.mpr fun hresource => ?_
    obtain ⟨b, hb, hkind⟩ := isResource_iff.mp hresource
    cases (a.parent_declared hordered').symm.trans hb
    have hkind := (a.kind (Nat.lt_trans hblock.1 hblock.2)).symm.trans hkind
    exact a.kind_block (by simp [hkind])
  have hparent : (k.withTree t').view.tree.parent (a.place e) = some a.declared :=
    a.parent_value hordered'
  have hkind : (k.withTree t').view.tree.kind a.declared = .localVariable := a.kind_declared
  rw [trackValue, hparent]
  simp only [hkind, hopen, Bool.false_eq_true, if_false]

theorem Stands.passes_mention (hpasses : k.view.tree.Passes c e) :
    t'.Passes (Tree.instead a.place e a.mention c) a.mention :=
  a.passes_mention hordered hordered' h.value hpasses
    (Nat.lt_trans (h.block_lt a hordered) (hordered.parent_lt (h.parent hordered)).1)

theorem Stands.children_place :
    t'.children (a.place p) = (k.view.tree.children p).map (Tree.instead a.place e a.mention) :=
  a.children_place hordered hordered' (h.place_lt hordered) (Nat.ne_of_gt (h.block_lt a hordered))

theorem Stands.holds_mention (hpasses : k.view.tree.Passes c e) :
    t'.Holds (a.place p) a.mention :=
  a.holds_mention hordered hordered' h.value (h.place_lt hordered) (h.block_lt a hordered)
    ⟨c, h.releases.mem_children, hpasses⟩

section

variable (hqualifiers : ∀ n q, k.view.tree.qualifier n = some q → q ∈ k.view.tree.children n)

include hqualifiers

/-- A call that keeps the value also keeps the mention. -/
theorem Stands.ends_argument (hpasses : k.view.tree.Passes c e) (hkind : k.view.tree.kind p = .call)
    (hargument : k.view.tree.qualifier p ≠ some c) (hkeeps : k.callKeeps p = true) :
    (k.withTree t').Ends a.mention .escaped := by
  have hps := h.place_lt hordered
  have hreceiver : ∀ q, k.view.tree.qualifier p = some q →
      q ≠ c ∧ k.view.tree.IsAside e p q := by
    intro q hq
    have hne : q ≠ c := fun heq => hargument (heq ▸ hq)
    exact ⟨hne, h.isAside hordered (hqualifiers p q hq) hne⟩
  have hqualifier : t'.qualifier (a.place p) = (k.view.tree.qualifier p).map a.place := by
    rw [a.qualifier hps]
    exact Option.map_congr fun q hq => Tree.instead_of_ne _ _ (hreceiver q hq).2.ne
  have hout : e ∉ k.view.tree.selfAndAncestors p := fun hmem =>
    absurd (h.lt hordered) (Nat.not_lt.mpr (Tree.le_of_mem_selfAndAncestors hmem))
  have hcall : (k.withTree t').view.resolveCall (a.place p) = k.view.resolveCall p :=
    View.resolveCall_place (h.embedding a hordered hordered' hqualifiers) hordered hordered'
      ⟨hps, hout⟩ (a.length_arguments hordered hordered' h.value hqualifiers hps
        (Nat.ne_of_gt (h.block_lt a hordered))) hqualifier fun q hq => (hreceiver q hq).2
  refine .passed ((a.kind hps).trans hkind) (h.holds_mention a hordered hordered' hpasses)
    (fun hreceives => ?_) fun m hm => ?_
  · obtain ⟨q', hq', hpasses'⟩ := hreceives.receiver
    obtain ⟨q, hq, rfl⟩ := Option.map_eq_some_iff.mp (hqualifier.symm.trans hq')
    obtain ⟨hne, haside⟩ := hreceiver q hq
    have hparent := hordered.mem_children.mp (hqualifiers p q hq)
    -- the mention is below one child only, so receiver and argument would be the same
    have heq := hordered'.child_eq_of_mem (a.parent_place hordered hordered' hparent haside.ne)
      (a.parent_instead hordered hordered' (h.parent hordered))
      (hordered'.mem_selfAndAncestors_of_flows hpasses'.flows)
      (hordered'.mem_selfAndAncestors_of_flows
        (h.passes_mention a hordered hordered' hpasses).flows)
    rw [← Tree.instead_of_ne a.place a.mention haside.ne] at heq
    exact hne (a.instead_injective haside.lt_size (hordered.parent_lt (h.parent hordered)).2 heq)
  · rw [hcall] at hm
    exact callKeeps_iff.mp hkeeps m hm

/-- What is not a local variable for the value is none for the mention. -/
theorem Stands.ends_stored (hpasses : k.view.tree.Passes c e)
    (hkind : k.view.tree.kind p = .assignment)
    (hright : (k.view.tree.children p)[1]? = some c)
    (htarget : ∀ d, ¬k.Targets p (.localNode d)) : (k.withTree t').Ends a.mention .escaped := by
  have hchildren := h.children_place a hordered hordered'
  refine .stored ⟨(a.kind (h.place_lt hordered)).trans hkind, _, ?_,
    h.passes_mention a hordered hordered' hpasses⟩ ?_
  · show (t'.children (a.place p))[1]? = _
    rw [hchildren, List.getElem?_map, hright]
    rfl
  · rintro d ⟨target', hhead', hresolve⟩
    rw [show (k.withTree t').view.tree.children (a.place p) = _ from hchildren,
      List.head?_map] at hhead'
    obtain ⟨target, hhead, rfl⟩ := Option.map_eq_some_iff.mp hhead'
    have haside := h.isAside hordered (List.mem_of_head? hhead)
      (Nat.ne_of_lt (hordered.head_lt_second hhead hright))
    rw [Tree.instead_of_ne _ _ haside.ne] at hresolve
    have hplace := View.resolve_place (h.embedding a hordered hordered' hqualifiers) hordered
      hordered' haside
    obtain ⟨decl, hdecl, hmoved⟩ := Option.map_eq_some_iff.mp (hplace.symm.trans hresolve)
    cases decl with
    | localNode d => exact htarget d ⟨target, hhead, hdecl⟩
    | _ => cases hmoved

/-- In parentheses and casts only, the mention lets the value escape. -/
theorem Stands.ends_mention (hpasses : k.view.tree.Passes c e) :
    (k.withTree t').Ends a.mention .escaped := by
  cases h.releases with
  | kept hkind =>
      have hkind' : (k.withTree t').view.tree.kind (a.place p) = k.view.tree.kind p :=
        a.kind (h.place_lt hordered)
      refine .kept (hkind' ▸ ?_) (h.holds_mention a hordered hordered' hpasses)
      simp only [List.mem_cons, List.not_mem_nil, or_false] at hkind ⊢
      rcases hkind with hkind | hkind | hkind <;> simp [hkind]
  | argument hkind _ hargument hkeeps =>
      exact h.ends_argument a hordered hordered' hqualifiers hpasses hkind hargument hkeeps
  | stored hkind hright htarget =>
      exact h.ends_stored a hordered hordered' hqualifiers hpasses hkind hright htarget

end

/-- A conditional expression keeps the mention from being seen. -/
theorem Stands.use_mention (hout : ¬k.view.tree.Passes c e) :
    (k.withTree t').use a.mention = .nothing := by
  obtain ⟨n, hle, hkind, hholds⟩ :=
    (hordered.passes_or_conditional_of_flows h.flows).resolve_left hout
  have hlt := (hordered.parent_lt (h.parent hordered)).1
  have hblock := Nat.lt_trans (h.block_lt a hordered) (Nat.lt_of_lt_of_le hlt hle)
  have hn := Tree.lt_size_of_kind (t := k.view.tree) (n := n) (by simp [hkind])
  have hkind' : (k.withTree t').view.tree.kind (a.place n) = .conditional := (a.kind hn).trans hkind
  have haround : (k.withTree t').view.tree.skipParenthesesUp a.mention = some (a.place n) :=
    hordered'.skipParenthesesUp_of_holds
      (a.holds_mention hordered hordered' h.value hn hblock hholds)
      (Tree.not_isTransparent_of_kind hkind' rfl)
  simp only [use, haround, hkind']

end

/-- A value that stands where it escapes, escapes. If it is named first, it escapes just
if only parentheses and casts are on the way, and is a leak otherwise. -/
theorem naming_keeps_escape_iff {b b' : Builder} (hb : b.Made) (hb' : b'.Made)
    (htree : k.view.tree = b.build)
    (hqualifiers : ∀ n q, k.view.tree.qualifier n = some q → q ∈ k.view.tree.children n)
    (a : k.view.tree.Naming b'.build x e s) (h : k.Stands p c e s) :
    k.trackValue e = .escaped ∧
      ((k.withTree b'.build).trackValue (a.place e) = .escaped ↔ k.view.tree.Passes c e) ∧
      (¬k.view.tree.Passes c e → (k.withTree b'.build).trackValue (a.place e) = .leaked) := by
  have hordered : k.view.tree.Ordered := htree ▸ hb.ordered
  have hordered' := hb'.ordered
  rw [trackValue_place a hordered hordered']
  have hescapes : k.view.tree.Passes c e → (k.withTree b'.build).track a.declared = .escaped :=
    fun hpasses => h.track_of_ends a hordered hordered'
      (h.ends_mention a hordered hordered' hqualifiers hpasses)
  have hleaks : ¬k.view.tree.Passes c e → (k.withTree b'.build).track a.declared = .leaked :=
    fun hout => h.track_of_nothing a hordered hordered' (h.use_mention a hordered hordered' hout)
  refine ⟨h.trackValue_eq hordered, ⟨fun hescaped => ?_, hescapes⟩, hleaks⟩
  by_contra hout
  rw [hleaks hout] at hescaped
  cases hescaped

/-- The start of `class A { Object f(boolean c) { ... } }`. -/
def methodStart : Builder :=
  ((((Builder.start default .source .javaFile none default).enter
    { kind := .classDecl, name := some "A" }).enter
    { kind := .method, name := some "f" }).leaf
    { kind := .parameter, name := some "c" }).enter { kind := .block }

def withVariable : Builder :=
  ((methodStart.enter { kind := .localVariable, name := some "a" }).leaf
    { kind := .call, name := some "obtain" }).leave

def castValue : Builder :=
  ((methodStart.enter { kind := .ret }).enter { kind := .cast }).leaf
    { kind := .call, name := some "obtain" }

def castVariable : Builder :=
  ((withVariable.enter { kind := .ret }).enter { kind := .cast }).leaf
    { kind := .reference, name := some "a" }

/-- The method returns `c ? obtain() : null`. -/
def branchValue : Builder :=
  ((((methodStart.enter { kind := .ret }).enter { kind := .conditional }).leaf
    { kind := .reference, name := some "c" }).leaf
    { kind := .call, name := some "obtain" }).leaf { kind := .literal, literal := some .null }

/-- The method returns `c ? a : null`. -/
def branchVariable : Builder :=
  ((((withVariable.enter { kind := .ret }).enter { kind := .conditional }).leaf
    { kind := .reference, name := some "c" }).leaf
    { kind := .reference, name := some "a" }).leaf { kind := .literal, literal := some .null }

def unrestricted (b : Builder) : Tracker where
  view := { tree := b.build, symbols := default }
  isCleanup m := m.name == "recycle"

theorem methodStart_made : methodStart.Made :=
  ((((Builder.Made.start ..).enter _).enter _).leaf _).enter _

theorem withVariable_made : withVariable.Made := ((methodStart_made.enter _).leaf _).leave

/-- The value moves into the variable, and what stands behind the variable moves by
two. -/
def moved (value n : Nat) : Nat := if n < 5 then n else if n = value then 6 else n + 2

theorem moved_injective {value n m : Nat} (h : moved value n = moved value m) : n = m := by
  simp only [moved] at h
  split at h <;> split at h <;> (try split at h) <;> (try split at h) <;> omega

def told (returned : List Payload) : List Payload :=
  [{ kind := .file }, { kind := .classDecl, name := some "A" },
    { kind := .method, name := some "f" }, { kind := .parameter, name := some "c" },
    { kind := .block }, { kind := .ret }] ++ returned

def castTold : List Payload := told [{ kind := .cast }, { kind := .call, name := some "obtain" }]

def branchTold : List Payload :=
  told [{ kind := .conditional }, { kind := .reference, name := some "c" },
    { kind := .call, name := some "obtain" }, { kind := .literal, literal := some .null }]

def castNaming : castValue.build.Naming castVariable.build "a" 7 5 where
  place := moved 7
  declared := 5
  mention := 9
  block := 4
  before := []
  after := []
  imports := by decide +kernel
  fresh := by decide +kernel
  place_root := rfl
  injective _ _ := moved_injective
  said {n} hn := by
    have hsize : castValue.build.size = 8 := by decide +kernel
    rw [hsize] at hn
    have hvalue : castValue.build.said n = castTold.getD n {} := by
      interval_cases n <;> with_unfolding_all rfl
    rw [hvalue]
    interval_cases n <;> with_unfolding_all rfl
  qualifier := by decide +kernel
  children := by decide +kernel
  kind_declared := by decide +kernel
  name_declared := by decide +kernel
  children_declared := by decide +kernel
  kind_mention := by decide +kernel
  name_mention := by decide +kernel
  children_mention := by decide +kernel
  kind_block := by decide +kernel
  children_block := by decide +kernel
  inserted := by decide +kernel

theorem castValue_stands : (unrestricted castValue).Stands 5 6 7 5 where
  value := .inl (by decide +kernel)
  releases := .kept (by decide +kernel) (by decide +kernel)
  flows := .through (by decide +kernel) (by decide +kernel) (.self 7)
  statement := Tree.self_mem_selfAndAncestors

/-- A cast does not hide the variable. -/
theorem castVariable_escapes : (unrestricted castVariable).trackValue 6 = .escaped := by
  have hb : castValue.Made := ((methodStart_made.enter _).enter _).leaf _
  have hb' : castVariable.Made := ((withVariable_made.enter _).enter _).leaf _
  have hqualifiers : ∀ n q, castValue.build.qualifier n = some q →
      q ∈ castValue.build.children n := by
    intro n q hq
    have hnone : ∀ n < castValue.build.size, castValue.build.qualifier n = none := by decide +kernel
    rw [hnone n (Tree.lt_size_of_qualifier hq)] at hq
    cases hq
  refine (naming_keeps_escape_iff hb hb' rfl hqualifiers castNaming castValue_stands).2.1.mpr ?_
  exact .through (by decide +kernel) (by decide +kernel) (.self 7)

def branchNaming : branchValue.build.Naming branchVariable.build "a" 8 5 where
  place := moved 8
  declared := 5
  mention := 10
  block := 4
  before := []
  after := []
  imports := by decide +kernel
  fresh := by decide +kernel
  place_root := rfl
  injective _ _ := moved_injective
  said {n} hn := by
    have hsize : branchValue.build.size = 10 := by decide +kernel
    rw [hsize] at hn
    have hvalue : branchValue.build.said n = branchTold.getD n {} := by
      interval_cases n <;> with_unfolding_all rfl
    rw [hvalue]
    interval_cases n <;> with_unfolding_all rfl
  qualifier := by decide +kernel
  children := by decide +kernel
  kind_declared := by decide +kernel
  name_declared := by decide +kernel
  children_declared := by decide +kernel
  kind_mention := by decide +kernel
  name_mention := by decide +kernel
  children_mention := by decide +kernel
  kind_block := by decide +kernel
  children_block := by decide +kernel
  inserted := by decide +kernel

theorem branchValue_stands : (unrestricted branchValue).Stands 5 6 8 5 where
  value := .inl (by decide +kernel)
  releases := .kept (by decide +kernel) (by decide +kernel)
  flows := .branch (by decide +kernel) (by decide +kernel) (by decide +kernel) (.self 8)
  statement := Tree.self_mem_selfAndAncestors

/-- In a branch the value escapes, and the variable in its place does not. -/
theorem branchVariable_not_escapes : branchValue.Made ∧ branchVariable.Made ∧
    (unrestricted branchValue).Stands 5 6 8 5 ∧
    (unrestricted branchValue).trackValue 8 = .escaped ∧
    ∃ a : branchValue.build.Naming branchVariable.build "a" 8 5,
      (unrestricted branchVariable).trackValue (a.place 8) ≠ .escaped := by
  refine ⟨((((methodStart_made.enter _).enter _).leaf _).leaf _).leaf _,
    ((((withVariable_made.enter _).enter _).leaf _).leaf _).leaf _,
    branchValue_stands, by decide +kernel, branchNaming, ?_⟩
  show (unrestricted branchVariable).trackValue 6 ≠ .escaped
  decide +kernel

end Escape.Tracker

end LintEngine
