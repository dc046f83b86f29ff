import LintEngine.Proofs.View.Embeddings

/-!
Naming a value. A program may write the value of an expression where it is needed, or
first declare a variable with this value and write the variable there. `Tree.Naming`
relates the two programs node by node: every node has its place in the second one,
which has two nodes more, the variable and the mention of it.

The name is a new one, so nothing else in the second program refers to the variable,
and all other names mean what they mean in the first program. What stands aside from
the value is therefore embedded in the second program.
-/

namespace LintEngine

namespace Tree

/-- Where a node is found if a value has given its place to a mention. -/
def instead (place : NodeId → NodeId) (value mention n : NodeId) : NodeId :=
  if n = value then mention else place n

/-- One program is another one in which a value has been named: just before a
statement, a variable is declared with it, and in the statement the variable stands
in its place. -/
structure Naming (t t' : Tree) (x : String) (value statement : NodeId) where
  /-- Where the nodes of the first program are found in the second one. -/
  place : NodeId → NodeId
  /-- The variable. -/
  declared : NodeId
  /-- The reference to the variable. -/
  mention : NodeId
  /-- What the statement stands in. -/
  block : NodeId
  before : List NodeId
  after : List NodeId
  imports : t'.imports = t.imports
  fresh : ∀ {n}, n < t.size → t.name n ≠ some x
  place_root : place root = root
  injective : ∀ {n m}, n < t.size → m < t.size → place n = place m → n = m
  said : ∀ {n}, n < t.size → t'.said (place n) = t.said n
  qualifier : ∀ {n}, n < t.size →
    t'.qualifier (place n) = (t.qualifier n).map (instead place value mention)
  children : ∀ {n}, n < t.size →
    (t'.children (place n)).filter (· != declared) =
      (t.children n).map (instead place value mention)
  kind_declared : t'.kind declared = .localVariable
  name_declared : t'.name declared = some x
  children_declared : t'.children declared = [place value]
  kind_mention : t'.kind mention = .reference
  name_mention : t'.name mention = some x
  children_mention : t'.children mention = []
  kind_block : t.kind block ∉ [.classDecl, .method, .lambda, .tryStatement]
  children_block : t.children block = before ++ statement :: after
  inserted : t'.children (place block) =
    before.map place ++ declared :: place statement :: after.map place

@[simp] theorem instead_self (place : NodeId → NodeId) (value mention : NodeId) :
    instead place value mention value = mention := if_pos rfl

theorem instead_of_ne {n value : NodeId} (place : NodeId → NodeId) (mention : NodeId)
    (h : n ≠ value) : instead place value mention n = place n := if_neg h

theorem lt_size_of_name {t : Tree} {n : NodeId} {y : String} (h : t.name n = some y) :
    n < t.size := by
  by_contra hout
  rw [name, node_of_size_le (Nat.le_of_not_lt hout)] at h
  cases h

theorem Ordered.eq_root_of_parent {t : Tree} (h : t.Ordered) {n : NodeId} (hn : n < t.size)
    (hp : t.parent n = none) : n = root := by
  cases n with
  | zero => rfl
  | succ n =>
      obtain ⟨p, hp', -⟩ := h.parent_mem n hn
      rw [hp] at hp'
      cases hp'

namespace Naming

variable {t t' : Tree} {x y : String} {e s : NodeId} (a : t.Naming t' x e s)
  {n m c d p q : NodeId}

/-! ### What nodes say -/

theorem kind (hn : n < t.size) : t'.kind (a.place n) = t.kind n := by
  show (t'.said _).kind = (t.said n).kind
  rw [a.said hn]

theorem name (hn : n < t.size) : t'.name (a.place n) = t.name n := by
  show (t'.said _).name = (t.said n).name
  rw [a.said hn]

theorem place_ne_of_name (hn : n < t.size) (hm : t'.name m = some x) : a.place n ≠ m := by
  intro heq
  rw [← heq, a.name hn] at hm
  exact a.fresh hn hm

theorem place_ne_declared (hn : n < t.size) : a.place n ≠ a.declared :=
  a.place_ne_of_name hn a.name_declared

theorem place_ne_mention (hn : n < t.size) : a.place n ≠ a.mention :=
  a.place_ne_of_name hn a.name_mention

/-- Different nodes are found at different places, also if one of them is the value. -/
theorem instead_injective (hn : n < t.size) (hm : m < t.size)
    (h : instead a.place e a.mention n = instead a.place e a.mention m) : n = m := by
  rw [instead, instead] at h
  split at h <;> split at h
  · simp_all
  · exact absurd h.symm (a.place_ne_mention hm)
  · exact absurd h (a.place_ne_mention hn)
  · exact a.injective hn hm h

/-! ### Links -/

section

variable (hordered : t.Ordered) (hordered' : t'.Ordered)

theorem mem_children_place (hn : n < t.size) (hc : c ∈ t.children n) :
    instead a.place e a.mention c ∈ t'.children (a.place n) := by
  have hmem := List.mem_map_of_mem (f := instead a.place e a.mention) hc
  rw [← a.children hn] at hmem
  exact (List.mem_filter.mp hmem).1

theorem of_mem_children_place (hn : n < t.size) (hm : m ∈ t'.children (a.place n)) :
    m = a.declared ∨ ∃ c ∈ t.children n, instead a.place e a.mention c = m := by
  by_cases heq : m = a.declared
  · exact .inl heq
  · have hmem : m ∈ (t'.children (a.place n)).filter (· != a.declared) :=
      List.mem_filter.mpr ⟨hm, bne_iff_ne.mpr heq⟩
    rw [a.children hn] at hmem
    exact .inr (List.mem_map.mp hmem)

include hordered'

theorem parent_declared : t'.parent a.declared = some (a.place a.block) := by
  rw [← hordered'.mem_children, a.inserted]
  simp

theorem parent_value : t'.parent (a.place e) = some a.declared := by
  rw [← hordered'.mem_children, a.children_declared]
  simp

include hordered

theorem parent_instead (hp : t.parent c = some p) :
    t'.parent (instead a.place e a.mention c) = some (a.place p) := by
  have hlt := hordered.parent_lt hp
  exact hordered'.mem_children.mp
    (a.mem_children_place (Nat.lt_trans hlt.1 hlt.2) (hordered.mem_children.mpr hp))

theorem parent_place (hp : t.parent n = some p) (hne : n ≠ e) :
    t'.parent (a.place n) = some (a.place p) := by
  have hparent := a.parent_instead hordered hordered' hp
  rwa [instead_of_ne _ _ hne] at hparent

theorem parent_mention (hp : t.parent e = some p) : t'.parent a.mention = some (a.place p) := by
  have hparent := a.parent_instead hordered hordered' hp
  rwa [instead_self] at hparent

theorem place_lt_size (hn : n < t.size) : a.place n < t'.size := by
  cases hp : t.parent n with
  | none =>
      rw [hordered.eq_root_of_parent hn hp, a.place_root]
      exact hordered'.pos
  | some p =>
      by_cases hne : n = e
      · rw [hne]
        exact (hordered'.parent_lt (a.parent_value hordered')).2
      · exact (hordered'.parent_lt (a.parent_place hordered hordered' hp hne)).2

include a in
theorem size_le : t.size ≤ t'.size := by
  have hcard := Finset.card_le_card_of_injOn (s := Finset.range t.size) (t := Finset.range t'.size)
    a.place (fun n hn => ?_) fun n hn m hm h => ?_
  · rwa [Finset.card_range, Finset.card_range] at hcard
  · rw [Finset.coe_range, Set.mem_Iio] at hn ⊢
    exact a.place_lt_size hordered hordered' hn
  · rw [Finset.coe_range, Set.mem_Iio] at hn hm
    exact a.injective hn hm h

/-- Around nodes that are not in the value, nothing has changed. -/
theorem ancestors_place (hn : n < t.size) (hout : e ∉ t.selfAndAncestors n) :
    t'.ancestors (a.place n) = (t.ancestors n).map a.place := by
  induction n using Nat.strongRecOn with
  | _ n ih =>
      cases hp : t.parent n with
      | none =>
          rw [hordered.eq_root_of_parent hn hp, a.place_root,
            ancestors_eq_nil hordered'.parent_root, ancestors_eq_nil hordered.parent_root]
          rfl
      | some p =>
          have hlt := (hordered.parent_lt hp).1
          have hne : n ≠ e := fun heq => hout (heq ▸ self_mem_selfAndAncestors)
          have hout' : e ∉ t.selfAndAncestors p := fun hmem =>
            hout (mem_selfAndAncestors_trans hmem (hordered.parent_mem_selfAndAncestors hp))
          rw [hordered.ancestors_of_parent hp,
            hordered'.ancestors_of_parent (a.parent_place hordered hordered' hp hne),
            selfAndAncestors, selfAndAncestors, ih p hlt (Nat.lt_trans hlt hn) hout']
          rfl

/-- The second program has just two nodes more. -/
theorem cases_of_lt_size (he : e < t.size) (hm : m < t'.size) :
    m = a.declared ∨ m = a.mention ∨ ∃ n, n < t.size ∧ a.place n = m := by
  induction m using Nat.strongRecOn with
  | _ m ih =>
      cases hp : t'.parent m with
      | none =>
          refine .inr (.inr ⟨root, hordered.pos, ?_⟩)
          rw [a.place_root, hordered'.eq_root_of_parent hm hp]
      | some p =>
          have hlt := (hordered'.parent_lt hp).1
          have hmem := hordered'.mem_children.mpr hp
          rcases ih p hlt (Nat.lt_trans hlt hm) with rfl | rfl | ⟨n, hn, rfl⟩
          · rw [a.children_declared, List.mem_singleton] at hmem
            exact .inr (.inr ⟨e, he, hmem.symm⟩)
          · rw [a.children_mention] at hmem
            cases hmem
          · rcases a.of_mem_children_place hn hmem with rfl | ⟨c, hc, rfl⟩
            · exact .inl rfl
            · rw [instead]
              split
              · exact .inr (.inl rfl)
              · exact .inr (.inr ⟨c, (hordered.below_of_mem_children hc).2, rfl⟩)

theorem eq_of_name (he : e < t.size) (h : t'.name m = some x) :
    m = a.declared ∨ m = a.mention := by
  rcases a.cases_of_lt_size hordered hordered' he (lt_size_of_name h) with hm | hm | ⟨n, hn, rfl⟩
  · exact .inl hm
  · exact .inr hm
  · exact absurd rfl (a.place_ne_of_name hn h)

omit hordered' in
theorem parent_statement : t.parent s = some a.block := by
  rw [← hordered.mem_children, a.children_block]
  simp

/-- Only the children of the block are more than before. -/
theorem children_place (hn : n < t.size) (hne : n ≠ a.block) :
    t'.children (a.place n) = (t.children n).map (instead a.place e a.mention) := by
  rw [← a.children hn, List.filter_eq_self.mpr]
  intro m hm
  refine bne_iff_ne.mpr fun heq => hne ?_
  have hparent := hordered'.mem_children.mp (heq ▸ hm)
  rw [a.parent_declared hordered', Option.some_inj] at hparent
  have hblock := hordered.parent_lt (a.parent_statement hordered)
  exact (a.injective (Nat.lt_trans hblock.1 hblock.2) hn hparent).symm

end

/-! ### Other names -/

/-- A search that passes over the variable, the mention and the value. -/
theorem find?_place {l l' : List NodeId} {p p' : NodeId → Bool}
    (hl : l'.filter (· != a.declared) = l.map (instead a.place e a.mention))
    (hdeclared : p' a.declared = false) (hmention : p' a.mention = false) (hvalue : p e = false)
    (hp : ∀ c ∈ l, p' (a.place c) = p c) : l'.find? p' = (l.find? p).map a.place := by
  have hskip : l'.find? p' = (l'.filter (· != a.declared)).find? p' := by
    rw [List.find?_filter]
    congr 1
    funext c
    by_cases hc : c = a.declared
    · simp [hc, hdeclared]
    · simp [hc]
  rw [hskip, hl]
  clear hskip hl
  induction l with
  | nil => rfl
  | cons c l ih =>
      have ih := ih fun c hc => hp c (List.mem_cons_of_mem _ hc)
      simp only [List.map_cons, List.find?_cons, ih]
      by_cases hc : c = e
      · simp [hc, hmention, hvalue]
      · rw [instead_of_ne _ _ hc, hp c List.mem_cons_self]
        cases p c <;> rfl

/-- The children before a child are those before it in the first program, and perhaps
the variable. -/
theorem filter_takeWhile {l l' : List NodeId}
    (hl : l'.filter (· != a.declared) = l.map (instead a.place e a.mention))
    (hlt : ∀ c ∈ l, c < t.size) (hn : n < t.size) (hne : n ≠ e) :
    (l'.takeWhile (· != a.place n)).filter (· != a.declared) =
      (l.takeWhile (· != n)).map (instead a.place e a.mention) := by
  induction l' generalizing l with
  | nil =>
      rw [List.filter_nil, eq_comm, List.map_eq_nil_iff] at hl
      rw [hl]
      rfl
  | cons m l' ih =>
      by_cases hm : m = a.declared
      · rw [hm, List.filter_cons_of_neg (by simp)] at hl
        rw [hm, List.takeWhile_cons_of_pos (by simpa using (a.place_ne_declared hn).symm),
          List.filter_cons_of_neg (by simp), ih hl hlt]
      · rw [List.filter_cons_of_pos (by simpa using hm)] at hl
        cases l with
        | nil => cases hl
        | cons c l =>
            rw [List.map_cons, List.cons.injEq] at hl
            obtain ⟨rfl, hl⟩ := hl
            have hlt' : ∀ c ∈ l, c < t.size := fun c hc => hlt c (List.mem_cons_of_mem _ hc)
            by_cases hc : c = n
            · rw [hc, List.takeWhile_cons_of_neg (by simp [instead_of_ne _ _ hne]),
                List.takeWhile_cons_of_neg (by simp)]
              rfl
            · have hplace : instead a.place e a.mention c ≠ a.place n := by
                rw [← instead_of_ne a.place a.mention hne]
                exact mt (a.instead_injective (hlt c List.mem_cons_self) hn) hc
              rw [List.takeWhile_cons_of_pos (by simpa using hplace),
                List.takeWhile_cons_of_pos (by simpa using hc),
                List.filter_cons_of_pos (by simpa using hm), ih hl hlt', List.map_cons]

section

variable (hordered : t.Ordered) (hordered' : t'.Ordered)

include hordered hordered'

omit hordered hordered' in
theorem find?_named {l l' : List NodeId} (kinds : NodeKind → Bool) (hcall : kinds .call = false)
    (hnew : kinds .new = false) (hvalue : t.kind e = .call ∨ t.kind e = .new) (hy : y ≠ x)
    (hlt : ∀ c ∈ l, c < t.size)
    (hl : l'.filter (· != a.declared) = l.map (instead a.place e a.mention)) :
    (l'.find? fun c => kinds (t'.kind c) && t'.name c == some y) =
      (l.find? fun c => kinds (t.kind c) && t.name c == some y).map a.place := by
  refine a.find?_place hl ?_ ?_ ?_ fun c hc => ?_
  · simp [a.name_declared, hy.symm]
  · simp [a.name_mention, hy.symm]
  · rcases hvalue with hvalue | hvalue
    · rw [hvalue, hcall, Bool.false_and]
    · rw [hvalue, hnew, Bool.false_and]
  · rw [a.kind (hlt c hc), a.name (hlt c hc)]

theorem declaredIn_place (hvalue : t.kind e = .call ∨ t.kind e = .new) (hp : t.parent n = some p)
    (hne : n ≠ e) (hy : y ≠ x) :
    t'.declaredIn (a.place p) (a.place n) y = (t.declaredIn p n y).map a.place := by
  have hn := (hordered.parent_lt hp).2
  have hps := Nat.lt_trans (hordered.parent_lt hp).1 hn
  have hlt : ∀ c ∈ t.children p, c < t.size := fun c hc => (hordered.below_of_mem_children hc).2
  have hmem : (t.children p).contains n = true :=
    List.contains_iff_mem.mpr (hordered.mem_children.mpr hp)
  have hmem' : (t'.children (a.place p)).contains (a.place n) = true :=
    List.contains_iff_mem.mpr
      (hordered'.mem_children.mpr (a.parent_place hordered hordered' hp hne))
  have hfields := a.find?_named (· == .field) rfl rfl hvalue hy hlt (a.children hps)
  have hparameters := a.find?_named (· == .parameter) rfl rfl hvalue hy hlt (a.children hps)
  have hearlier : ((t'.children (a.place p)).takeWhile (· != a.place n)).reverse.filter
        (· != a.declared) =
      ((t.children p).takeWhile (· != n)).reverse.map (instead a.place e a.mention) := by
    rw [List.filter_reverse, a.filter_takeWhile (a.children hps) hlt hn hne, List.map_reverse]
  have hvariables := a.find?_named (fun k => k == .localVariable || k == .parameter)
    rfl rfl hvalue hy
    (fun c hc => hlt c ((List.takeWhile_sublist _).subset (List.mem_reverse.mp hc))) hearlier
  simp only [declaredIn, a.kind hps, hmem, hmem', if_true]
  cases t.kind p with
  | classDecl => exact hfields
  | method | lambda => exact hparameters
  | _ => exact hvariables

theorem resolveLocal_place (hvalue : t.kind e = .call ∨ t.kind e = .new) (hn : n < t.size)
    (hout : e ∉ t.selfAndAncestors n) (hy : y ≠ x) :
    t'.resolveLocal y (a.place n) = (t.resolveLocal y n).map a.place := by
  induction n using Nat.strongRecOn with
  | _ n ih =>
      have hne : n ≠ e := fun heq => hout (heq ▸ self_mem_selfAndAncestors)
      cases hp : t.parent n with
      | none =>
          rw [resolveLocal_of_parent_eq_none hp, hordered.eq_root_of_parent hn hp, a.place_root,
            resolveLocal_of_parent_eq_none hordered'.parent_root]
          rfl
      | some p =>
          have hlt := (hordered.parent_lt hp).1
          have hout' : e ∉ t.selfAndAncestors p := fun hmem =>
            hout (mem_selfAndAncestors_trans hmem (hordered.parent_mem_selfAndAncestors hp))
          rw [hordered.resolveLocal_of_parent hp,
            hordered'.resolveLocal_of_parent (a.parent_place hordered hordered' hp hne),
            a.declaredIn_place hordered hordered' hvalue hp hne hy,
            ih p hlt (Nat.lt_trans hlt hn) hout']
          cases t.declaredIn p n y <;> rfl

/-! ### The new name -/

theorem declaredIn_fresh (he : e < t.size) (hp : p < t.size) (hne : p ≠ a.block) (child : NodeId) :
    t'.declaredIn (a.place p) child x = none := by
  refine Option.eq_none_iff_forall_ne_some.mpr fun d hd => ?_
  obtain ⟨hmem, hname, hkind⟩ := of_declaredIn hd
  rcases a.eq_of_name hordered hordered' he hname with rfl | rfl
  · have hparent := hordered'.mem_children.mp hmem
    rw [a.parent_declared hordered', Option.some_inj] at hparent
    have hblock := hordered.parent_lt (a.parent_statement hordered)
    exact hne (a.injective hp (Nat.lt_trans hblock.1 hblock.2) hparent.symm)
  · rw [a.kind_mention] at hkind
    simp at hkind

theorem declaredIn_block : t'.declaredIn (a.place a.block) (a.place s) x = some a.declared := by
  have hblock := hordered.parent_lt (a.parent_statement hordered)
  have hsorted := hordered'.children_sorted (n := a.place a.block)
  rw [a.inserted, List.pairwise_append, List.pairwise_cons] at hsorted
  have hearlier : (t'.children (a.place a.block)).takeWhile (· != a.place s) =
      a.before.map a.place ++ [a.declared] := by
    rw [a.inserted, List.takeWhile_append_of_pos, List.takeWhile_cons_of_pos,
      List.takeWhile_cons_of_neg (by simp)]
    · exact bne_iff_ne.mpr (a.place_ne_declared hblock.2).symm
    · intro c hc
      refine bne_iff_ne.mpr (Nat.ne_of_lt (hsorted.2.2 c hc _ ?_))
      simp
  have hmem : (t'.children (a.place a.block)).contains (a.place s) = true := by
    rw [a.inserted]
    simp
  have hkind := a.kind_block
  simp only [List.mem_cons, List.not_mem_nil, or_false, not_or] at hkind
  rw [declaredIn]
  simp only [a.kind (Nat.lt_trans hblock.1 hblock.2), hmem, if_true, hearlier, List.reverse_append]
  split
  · exact absurd ‹_› hkind.1
  · exact absurd ‹_› hkind.2.1
  · exact absurd ‹_› hkind.2.2.1
  · simp [a.kind_declared, a.name_declared]

theorem resolveLocal_fresh (he : e < t.size) (hn : n < t.size) (hs : s ∈ t.selfAndAncestors n)
    (hout : e ∉ t.selfAndAncestors n) : t'.resolveLocal x (a.place n) = some a.declared := by
  induction n using Nat.strongRecOn with
  | _ n ih =>
      have hne : n ≠ e := fun heq => hout (heq ▸ self_mem_selfAndAncestors)
      rcases List.mem_cons.mp hs with rfl | hs
      · rw [hordered'.resolveLocal_of_parent
          (a.parent_place hordered hordered' (a.parent_statement hordered) hne),
          a.declaredIn_block hordered hordered']
        rfl
      · cases hp : t.parent n with
        | none =>
            rw [ancestors_eq_nil hp] at hs
            cases hs
        | some p =>
            rw [hordered.ancestors_of_parent hp] at hs
            have hlt := (hordered.parent_lt hp).1
            have hblock := hordered.parent_lt (a.parent_statement hordered)
            have hpne : p ≠ a.block :=
              Nat.ne_of_gt (Nat.lt_of_lt_of_le hblock.1 (le_of_mem_selfAndAncestors hs))
            have hout' : e ∉ t.selfAndAncestors p := fun hmem =>
              hout (mem_selfAndAncestors_trans hmem (hordered.parent_mem_selfAndAncestors hp))
            rw [hordered'.resolveLocal_of_parent (a.parent_place hordered hordered' hp hne),
              a.declaredIn_fresh hordered hordered' he (Nat.lt_trans hlt hn) hpne,
              ih p hlt (Nat.lt_trans hlt hn) hs hout']
            rfl

/-! ### The mention -/

theorem passes_mention (hvalue : t.kind e = .call ∨ t.kind e = .new) (hpasses : t.Passes c e)
    (hblock : a.block < c) : t'.Passes (instead a.place e a.mention c) a.mention := by
  induction hpasses with
  | self n =>
      rw [instead_self]
      exact .self _
  | @through n inner e hkind hlast _ ih =>
      have hn : n < t.size := lt_size_of_kind fun hother => by
        simp [hother, NodeKind.isTransparent] at hkind
      have hne : n ≠ e := by
        rintro rfl
        rcases hvalue with hvalue | hvalue <;> simp [hvalue, NodeKind.isTransparent] at hkind
      have hbelow := hordered.below_of_mem_children (List.mem_of_getLast? hlast)
      rw [instead_of_ne _ _ hne]
      refine .through (by rwa [a.kind hn]) ?_ (ih a hvalue (Nat.lt_trans hblock hbelow.1))
      rw [a.children_place hordered hordered' hn (Nat.ne_of_gt hblock), List.getLast?_map, hlast]
      rfl

theorem holds_mention (hvalue : t.kind e = .call ∨ t.kind e = .new) (hn : n < t.size)
    (hblock : a.block < n) (hholds : t.Holds n e) : t'.Holds (a.place n) a.mention := by
  obtain ⟨c, hc, hpasses⟩ := hholds
  have hlt := (hordered.below_of_mem_children hc).1
  exact ⟨_, a.mem_children_place hn hc,
    a.passes_mention hordered hordered' hvalue hpasses (Nat.lt_trans hblock hlt)⟩

theorem length_arguments (hvalue : t.kind e = .call ∨ t.kind e = .new)
    (hqualifiers : ∀ n q, t.qualifier n = some q → q ∈ t.children n) (hn : n < t.size)
    (hne : n ≠ a.block) : (t'.arguments (a.place n)).length = (t.arguments n).length := by
  have hlt : ∀ c ∈ t.children n, c < t.size := fun c hc => (hordered.below_of_mem_children hc).2
  refine length_arguments_map (a.children_place hordered hordered' hn hne) (a.qualifier hn)
    (hqualifiers n) (fun c hc d hd => a.instead_injective (hlt c hc) (hlt d hd)) fun c hc => ?_
  by_cases heq : c = e
  · rw [heq, instead_self, a.kind_mention]
    rcases hvalue with hvalue | hvalue <;> rw [hvalue] <;> rfl
  · rw [instead_of_ne _ _ heq, a.kind (hlt c hc)]

end

end Naming

/-! ### What stands aside -/

/-- A node that is neither around a value nor in it, and does not stand after a node
around it. -/
structure IsAside (t : Tree) (e p n : NodeId) : Prop where
  lt_size : n < t.size
  not_around : n ∉ t.selfAndAncestors e
  not_in : e ∉ t.selfAndAncestors n
  not_after : n < p ∨ p ∈ t.selfAndAncestors n

namespace IsAside

variable {t : Tree} {e p n c d : NodeId} {y : String} (hordered : t.Ordered)
  (hp : p ∈ t.selfAndAncestors e)

include hordered hp

omit hordered hp in
theorem ne (h : t.IsAside e p n) : n ≠ e := fun heq =>
  h.not_in (heq ▸ self_mem_selfAndAncestors)

theorem child (h : t.IsAside e p n) (hc : c ∈ t.children n) : t.IsAside e p c := by
  have hparent := hordered.mem_children.mp hc
  have hup := hordered.parent_mem_selfAndAncestors hparent
  have hbelow := hordered.below_of_mem_children hc
  have hout : c ∉ t.selfAndAncestors e := fun hmem =>
    h.not_around (mem_selfAndAncestors_trans hup hmem)
  refine ⟨hbelow.2, hout, fun hmem => ?_, ?_⟩
  · rcases List.mem_cons.mp hmem with rfl | hmem
    · exact hout self_mem_selfAndAncestors
    · rw [hordered.ancestors_of_parent hparent] at hmem
      exact h.not_in hmem
  · rcases h.not_after with hlt | hmem
    · refine .inl (Nat.lt_of_not_le fun hle => h.not_around ?_)
      have hmem := hordered.mem_selfAndAncestors_of_le hup hbelow.2 (Nat.le_of_lt hlt) hle
      exact mem_selfAndAncestors_trans hmem hp
    · exact .inr (mem_selfAndAncestors_trans hmem hup)

omit hp in
/-- The other children of the node that the value flows to are aside. -/
theorem of_sibling (hc : t.parent c = some p) (hce : c ∈ t.selfAndAncestors e)
    (hn : t.parent n = some p) (hne : n ≠ c) : t.IsAside e p n := by
  have hout : n ∉ t.selfAndAncestors e := fun hmem =>
    hne (hordered.child_eq_of_mem hn hc hmem hce)
  refine ⟨(hordered.parent_lt hn).2, hout, fun hmem => ?_, .inr ?_⟩
  · rcases List.mem_cons.mp hmem with rfl | hmem
    · exact hout self_mem_selfAndAncestors
    · rw [hordered.ancestors_of_parent hn] at hmem
      have hle := Nat.le_trans (le_of_mem_selfAndAncestors hce) (le_of_mem_selfAndAncestors hmem)
      exact absurd (hordered.parent_lt hc).1 (Nat.not_lt.mpr hle)
  · exact hordered.parent_mem_selfAndAncestors hn

/-- Names lead to variables aside, as no variable is declared on the way to the
value. -/
theorem resolved (he : e < t.size) (h : t.IsAside e p n)
    (hway : ∀ d ∈ t.selfAndAncestors e, p ≤ d → t.kind d ≠ .localVariable)
    (hd : t.resolveLocal y n = some d) (hkind : t.kind d = .localVariable) : t.IsAside e p d := by
  obtain ⟨hlt, hout⟩ := hordered.before_of_resolveLocal hd hkind
  have hds := lt_size_of_kind (t := t) (n := d) (by simp [hkind])
  refine ⟨hds, fun hmem => ?_, fun hmem => ?_, ?_⟩
  · -- around the value there are variables only above `p`, and above `p` is around `n`
    have hdp : d ∈ t.selfAndAncestors p := by
      rcases mem_or_mem_of_mem_selfAndAncestors hmem hp with hup | hup
      · exact hup
      · exact absurd hkind (hway d hmem (le_of_mem_selfAndAncestors hup))
    rcases h.not_after with hnp | hnp
    · have hps := Nat.lt_of_le_of_lt (le_of_mem_selfAndAncestors hp) he
      exact hout (hordered.mem_selfAndAncestors_of_le hdp hps (Nat.le_of_lt hlt) (Nat.le_of_lt hnp))
    · exact hout (mem_selfAndAncestors_trans hdp hnp)
  · rcases List.mem_cons.mp hmem with rfl | hmem
    · exact hway e self_mem_selfAndAncestors (le_of_mem_selfAndAncestors hp) hkind
    · exact h.not_in (hordered.mem_selfAndAncestors_of_resolveLocal hd hmem)
  · rcases h.not_after with hnp | hnp
    · exact .inl (Nat.lt_trans hlt hnp)
    · by_cases hdp : d < p
      · exact .inl hdp
      · exact .inr (hordered.mem_selfAndAncestors_of_le hnp h.lt_size (Nat.le_of_not_lt hdp)
          (Nat.le_of_lt hlt))

end IsAside

namespace Naming

variable {t t' : Tree} {x : String} {e s p : NodeId} (a : t.Naming t' x e s)

def embedding (hordered : t.Ordered) (hordered' : t'.Ordered)
    (hqualifiers : ∀ n q, t.qualifier n = some q → q ∈ t.children n)
    (hvalue : t.kind e = .call ∨ t.kind e = .new) (he : e < t.size)
    (hp : p ∈ t.selfAndAncestors e) (hs : s ∈ t.selfAndAncestors p)
    (hway : ∀ d ∈ t.selfAndAncestors e, p ≤ d → t.kind d ≠ .localVariable) : t.Embedding t' where
  place := a.place
  Part := t.IsAside e p
  Around n := n < t.size ∧ e ∉ t.selfAndAncestors n
  imports := a.imports
  size_le := a.size_le hordered hordered'
  lt_size h := h.lt_size
  injective hn hm := a.injective hn.lt_size hm.lt_size
  around h := ⟨h.lt_size, h.not_in⟩
  said h := a.said h.1
  ancestors h := a.ancestors_place hordered hordered' h.1 h.2
  around_ancestors {n k} h hk := by
    have hk' := mem_selfAndAncestors_of_mem hk
    exact ⟨Nat.lt_trans (lt_of_mem_ancestors hk) h.1, fun hmem =>
      h.2 (mem_selfAndAncestors_trans hmem hk')⟩
  children {n} h := by
    have hne : n ≠ a.block := by
      rintro rfl
      have hup := hordered.parent_mem_selfAndAncestors (a.parent_statement hordered)
      exact h.not_around (mem_selfAndAncestors_trans (mem_selfAndAncestors_trans hup hs) hp)
    rw [a.children_place hordered hordered' h.lt_size hne]
    exact List.map_congr_left fun c hc => instead_of_ne _ _ (h.child hordered hp hc).ne
  part_children h hc := h.child hordered hp hc
  qualifier {n} h := by
    rw [a.qualifier h.lt_size]
    refine Option.map_congr fun q hq => instead_of_ne _ _ ?_
    exact (h.child hordered hp (hqualifiers n q hq)).ne
  qualifier_mem {n q} _ hq := hqualifiers n q hq
  resolveLocal {n y} h hy := by
    refine a.resolveLocal_place hordered hordered' hvalue h.lt_size h.not_in fun heq => ?_
    exact a.fresh h.lt_size (heq ▸ hy)
  around_resolved {n y d} h hd := by
    obtain ⟨scope, -, child, hdeclared⟩ := exists_of_resolveThrough hd
    obtain ⟨hmem, -, hkind⟩ := of_declaredIn hdeclared
    refine ⟨(hordered.below_of_mem_children hmem).2, fun hmem => ?_⟩
    rcases List.mem_cons.mp hmem with rfl | hmem
    · rcases hvalue with hvalue | hvalue <;> simp [hvalue] at hkind
    · exact h.not_in (hordered.mem_selfAndAncestors_of_resolveLocal hd hmem)
  part_resolved h hd hkind := h.resolved hordered hp he hway hd hkind

end Naming

end Tree

end LintEngine
