import LintEngine.Escape
import LintEngine.Proofs.Tree.Parentheses

/-!
What becomes of the value of a variable.

A reference is tracked if it names the variable, or another variable that an earlier
tracked reference was copied to. Some uses end the search: they clean the value up,
or let it escape. This is said here by what stands around a reference, without the
set of holders that is kept while the references are read. Main statement: the
outcome is that of the first tracked reference whose use ends the search, and the
value has leaked just if there is none.
-/

namespace LintEngine

namespace Escape.Tracker

variable {k : Tracker} {v d p q r m : NodeId} {o o' : Outcome}

/-! ### Uses -/

structure Receives (k : Tracker) (p r : NodeId) : Prop where
  around : k.view.tree.skipParenthesesUp r = some p
  receiver : ∃ q, k.view.tree.qualifier p = some q ∧ k.view.tree.Passes q r

structure IsAssigned (k : Tracker) (p r : NodeId) : Prop where
  kind : k.view.tree.kind p = .assignment
  right : ∃ e, (k.view.tree.children p)[1]? = some e ∧ k.view.tree.Passes e r

def Targets (k : Tracker) (p : NodeId) (decl : Declaration) : Prop :=
  ∃ target, (k.view.tree.children p).head? = some target ∧ k.view.resolve target = some decl

def IsClosed (k : Tracker) (d : NodeId) : Prop :=
  ∃ p, k.view.tree.parent d = some p ∧ k.view.tree.kind p = .tryStatement

/-- The uses of a reference that end the search. -/
inductive Ends (k : Tracker) (r : NodeId) : Outcome → Prop
  | cleaned {p : NodeId} {m : MethodRef} (hkind : k.view.tree.kind p = .call)
      (hreceives : k.Receives p r) (hcall : k.view.resolveCall p = some m)
      (hcleanup : k.isCleanup m = true) : Ends k r .cleanedUp
  | closed {d : NodeId} (hkind : k.view.tree.kind d = .localVariable)
      (hholds : k.view.tree.Holds d r) (hclosed : k.IsClosed d) : Ends k r .cleanedUp
  | passed {p : NodeId} (hkind : k.view.tree.kind p = .call) (hholds : k.view.tree.Holds p r)
      (hargument : ¬k.Receives p r)
      (hkeeps : ∀ m, k.view.resolveCall p = some m → k.isHarmless m = false) : Ends k r .escaped
  | kept {p : NodeId} (hkind : k.view.tree.kind p ∈ [.new, .ret, .arrayInit, .field])
      (hholds : k.view.tree.Holds p r) : Ends k r .escaped
  | stored {p : NodeId} (hassigned : k.IsAssigned p r)
      (htarget : ∀ d, ¬k.Targets p (.localNode d)) : Ends k r .escaped

/-- The uses of a reference that copy the value to another variable. -/
inductive Copies (k : Tracker) (r : NodeId) : NodeId → Prop
  | assigned {p d : NodeId} (hassigned : k.IsAssigned p r) (htarget : k.Targets p (.localNode d)) :
      Copies k r d
  | declared {d : NodeId} (hkind : k.view.tree.kind d = .localVariable)
      (hholds : k.view.tree.Holds d r) (hopen : ¬k.IsClosed d) : Copies k r d

theorem isResource_iff : k.isResource d = true ↔ k.IsClosed d := by
  simp only [isResource, Option.any_eq_true, beq_iff_eq, IsClosed]

theorem callKeeps_iff : k.callKeeps p = true ↔
    ∀ m, k.view.resolveCall p = some m → k.isHarmless m = false := by
  rw [callKeeps]
  cases k.view.resolveCall p <;> simp

theorem callCleans_iff : k.callCleans p = true ↔
    ∃ m, k.view.resolveCall p = some m ∧ k.isCleanup m = true :=
  Option.any_eq_true ..

/-- What the target of an assignment is, as it is looked up. -/
theorem targets_iff {decl : Declaration} : k.Targets p decl ↔
    (k.view.tree.children p).head?.bind k.view.resolve = some decl := by
  rw [Option.bind_eq_some_iff]
  rfl

section

variable (hordered : k.view.tree.Ordered) (hr : k.view.tree.kind r = .reference)

include hordered hr

theorem use_of_ends (h : k.Ends r o) : k.use r = .ends o := by
  have hr' := Tree.not_isTransparent_of_kind hr rfl
  cases h with
  | cleaned hkind hreceives hcall hcleanup =>
      have hreceiver := (hordered.option_any_skipParentheses_iff hr' _).mpr hreceives.receiver
      simp only [use, hreceives.around, hkind, hreceiver, if_true,
        callCleans_iff.mpr ⟨_, hcall, hcleanup⟩]
  | closed hkind hholds hclosed =>
      have haround := hordered.skipParenthesesUp_of_holds hholds
        (Tree.not_isTransparent_of_kind hkind rfl)
      have hdirect := (hordered.any_skipParentheses_iff hr' _).mpr hholds
      simp only [use, haround, hkind, hdirect, isResource_iff.mpr hclosed, if_true, Bool.not_true,
        Bool.false_eq_true, if_false]
  | @passed p hkind hholds hargument hkeeps =>
      have haround := hordered.skipParenthesesUp_of_holds hholds
        (Tree.not_isTransparent_of_kind hkind rfl)
      have hdirect := (hordered.any_skipParentheses_iff hr' _).mpr hholds
      have hreceiver : ((k.view.tree.qualifier p).any fun c =>
          k.view.tree.skipParentheses c == r) = false := by
        refine Bool.eq_false_iff.mpr fun hany => hargument ⟨haround, ?_⟩
        exact (hordered.option_any_skipParentheses_iff hr' _).mp hany
      simp only [use, haround, hkind, hreceiver, hdirect, callKeeps_iff.mpr hkeeps, Bool.and_self,
        if_true, Bool.false_eq_true, if_false]
  | @kept p hkind hholds =>
      have hp : (k.view.tree.kind p).isTransparent = false := by
        simp only [List.mem_cons, List.not_mem_nil, or_false] at hkind
        rcases hkind with hkind | hkind | hkind | hkind <;> rw [hkind] <;> rfl
      have haround := hordered.skipParenthesesUp_of_holds hholds hp
      have hdirect := (hordered.any_skipParentheses_iff hr' _).mpr hholds
      simp only [List.mem_cons, List.not_mem_nil, or_false] at hkind
      rcases hkind with hkind | hkind | hkind | hkind <;>
        simp only [use, haround, hkind, hdirect, if_true]
  | @stored p hassigned htarget =>
      obtain ⟨hkind, e, he, hpasses⟩ := hassigned
      have hholds : k.view.tree.Holds p r := ⟨e, List.mem_of_getElem? he, hpasses⟩
      have haround := hordered.skipParenthesesUp_of_holds hholds
        (Tree.not_isTransparent_of_kind hkind rfl)
      have hright := (hordered.option_any_skipParentheses_iff hr' _).mpr ⟨e, he, hpasses⟩
      simp only [use, haround, hkind, hright, if_true]
      split
      · rename_i d hd
        exact absurd (targets_iff.mpr hd) (htarget d)
      · rfl

theorem use_of_copies (h : k.Copies r d) : k.use r = .copies d := by
  have hr' := Tree.not_isTransparent_of_kind hr rfl
  cases h with
  | @assigned p _ hassigned htarget =>
      obtain ⟨hkind, e, he, hpasses⟩ := hassigned
      have hholds : k.view.tree.Holds p r := ⟨e, List.mem_of_getElem? he, hpasses⟩
      have haround := hordered.skipParenthesesUp_of_holds hholds
        (Tree.not_isTransparent_of_kind hkind rfl)
      have hright := (hordered.option_any_skipParentheses_iff hr' _).mpr ⟨e, he, hpasses⟩
      simp only [use, haround, hkind, hright, if_true, targets_iff.mp htarget]
  | declared hkind hholds hopen =>
      have haround := hordered.skipParenthesesUp_of_holds hholds
        (Tree.not_isTransparent_of_kind hkind rfl)
      have hdirect := (hordered.any_skipParentheses_iff hr' _).mpr hholds
      have hresource := Bool.eq_false_iff.mpr (mt isResource_iff.mp hopen)
      simp only [use, haround, hkind, hdirect, hresource, Bool.not_true, Bool.false_eq_true,
        if_false]

/-- Every use that ends the search or copies the value is one of those said. -/
theorem of_use :
    (∀ o, k.use r = .ends o → k.Ends r o) ∧ (∀ d, k.use r = .copies d → k.Copies r d) := by
  have hr' := Tree.not_isTransparent_of_kind hr rfl
  rw [use]
  cases haround : k.view.tree.skipParenthesesUp r with
  | none => constructor <;> rintro _ ⟨⟩
  | some p =>
      dsimp only
      have hholds := hordered.any_skipParentheses_iff hr' (k.view.tree.children p)
      have hreceiver := hordered.option_any_skipParentheses_iff hr' (k.view.tree.qualifier p)
      have hright := hordered.option_any_skipParentheses_iff hr' (k.view.tree.children p)[1]?
      split
      · rename_i hkind
        split
        · rename_i hany
          split
          · rename_i hcleans
            refine ⟨fun o h => ?_, by rintro _ ⟨⟩⟩
            obtain ⟨m, hcall, hcleanup⟩ := callCleans_iff.mp hcleans
            cases h
            exact .cleaned hkind ⟨haround, hreceiver.mp hany⟩ hcall hcleanup
          · constructor <;> rintro _ ⟨⟩
        · rename_i hany
          split
          · rename_i hkeeps
            rw [Bool.and_eq_true] at hkeeps
            refine ⟨fun o h => ?_, by rintro _ ⟨⟩⟩
            cases h
            exact .passed hkind (hholds.mp hkeeps.1) (fun h => hany (hreceiver.mpr h.receiver))
              (callKeeps_iff.mp hkeeps.2)
          · constructor <;> rintro _ ⟨⟩
      iterate 4
        · rename_i hkind
          split
          · rename_i hdirect
            refine ⟨fun o h => ?_, by rintro _ ⟨⟩⟩
            cases h
            exact .kept (by simp [hkind]) (hholds.mp hdirect)
          · constructor <;> rintro _ ⟨⟩
      · rename_i hkind
        split
        · rename_i hany
          split
          · rename_i holder htarget
            refine ⟨by rintro _ ⟨⟩, fun d h => ?_⟩
            cases h
            exact .assigned ⟨hkind, hright.mp hany⟩ (targets_iff.mpr htarget)
          · rename_i hother
            refine ⟨fun o h => ?_, by rintro _ ⟨⟩⟩
            cases h
            exact .stored ⟨hkind, hright.mp hany⟩ fun d htarget =>
              hother d (targets_iff.mp htarget)
        · constructor <;> rintro _ ⟨⟩
      · rename_i hkind
        split
        · constructor <;> rintro _ ⟨⟩
        · rename_i hdirect
          have hdirect := hholds.mp (by simpa using hdirect)
          split
          · rename_i hresource
            refine ⟨fun o h => ?_, by rintro _ ⟨⟩⟩
            cases h
            exact .closed hkind hdirect (isResource_iff.mp hresource)
          · rename_i hresource
            refine ⟨by rintro _ ⟨⟩, fun d h => ?_⟩
            cases h
            exact .declared hkind hdirect fun hclosed => hresource (isResource_iff.mpr hclosed)
      · constructor <;> rintro _ ⟨⟩

theorem use_eq_ends_iff : k.use r = .ends o ↔ k.Ends r o :=
  ⟨(of_use hordered hr).1 o, use_of_ends hordered hr⟩

theorem use_eq_copies_iff : k.use r = .copies d ↔ k.Copies r d :=
  ⟨(of_use hordered hr).2 d, use_of_copies hordered hr⟩

end

/-! ### Tracked references -/

/-- A reference after a variable in the part of the tree where it is visible. -/
structure IsMention (k : Tracker) (v r : NodeId) : Prop where
  kind : k.view.tree.kind r = .reference
  later : v < r
  scope : k.scopeOf v ∈ k.view.tree.selfAndAncestors r

def Names (k : Tracker) (r d : NodeId) : Prop :=
  ∃ name, k.view.tree.name r = some name ∧ k.view.tree.resolveLocal name r = some d

/-- The references that may stand for the value of a variable. -/
inductive Tracked (k : Tracker) (v : NodeId) : NodeId → Prop
  | own {r : NodeId} (hmention : k.IsMention v r) (hnames : k.Names r v) : Tracked k v r
  | copy {earlier r d : NodeId} (hearlier : Tracked k v earlier) (hlt : earlier < r)
      (hcopies : k.Copies earlier d) (hmention : k.IsMention v r) (hnames : k.Names r d) :
      Tracked k v r

/-- The first of the tracked references whose use ends the search. -/
structure IsFirstEnd (k : Tracker) (v r : NodeId) (o : Outcome) : Prop where
  tracked : k.Tracked v r
  ends : k.Ends r o
  first : ∀ r', k.Tracked v r' → ∀ o', k.Ends r' o' → r ≤ r'

def NeverEnds (k : Tracker) (v : NodeId) : Prop := ∀ r, k.Tracked v r → ∀ o, ¬k.Ends r o

/-- What the tracked references say about the value of a variable. -/
def Settles (k : Tracker) (v : NodeId) (o : Outcome) : Prop :=
  (∃ r, k.IsFirstEnd v r o) ∨ (o = .leaked ∧ k.NeverEnds v)

theorem Tracked.isMention (h : k.Tracked v r) : k.IsMention v r := by
  cases h with
  | own hmention => exact hmention
  | copy _ _ _ hmention => exact hmention

/-- The declaration of a mention, as it is looked up. -/
theorem names_iff : k.Names r d ↔
    ((k.view.tree.name r).bind fun name => k.view.tree.resolveLocal name r) = some d :=
  Option.bind_eq_some_iff.symm

theorem any_contains_iff (holders : List NodeId) :
    ((k.view.tree.name r).bind fun name => k.view.tree.resolveLocal name r).any
        holders.contains = true ↔ ∃ d ∈ holders, k.Names r d := by
  simp only [Option.any_eq_true, List.contains_iff_mem, ← names_iff, and_comm]

/-! ### The search -/

section

variable (hordered : k.view.tree.Ordered)

include hordered

theorem scopeOf_lt (v : NodeId) : k.scopeOf v < k.view.tree.size := by
  rw [scopeOf]
  cases hmethod : k.view.tree.enclosingMethod v with
  | some a =>
      have hkind := List.find?_some hmethod
      show a < _
      refine Tree.lt_size_of_kind fun hother => ?_
      simp [hother] at hkind
  | none =>
      cases hparent : k.view.tree.parent v with
      | some p =>
          have hlt := hordered.parent_lt hparent
          exact Nat.lt_trans hlt.1 hlt.2
      | none => exact hordered.pos

theorem mem_mentionsAfter : r ∈ k.mentionsAfter v ↔ k.IsMention v r := by
  rw [mentionsAfter, List.mem_filter, hordered.mem_descendants (scopeOf_lt hordered v)]
  simp only [Bool.and_eq_true, decide_eq_true_eq, beq_iff_eq]
  constructor
  · rintro ⟨⟨-, hscope⟩, hlater, hkind⟩
    exact ⟨hkind, hlater, hscope⟩
  · rintro ⟨hkind, hlater, hscope⟩
    exact ⟨⟨Tree.lt_size_of_kind (by simp [hkind]), hscope⟩, hlater, hkind⟩

theorem mentionsAfter_sorted : (k.mentionsAfter v).Pairwise (· < ·) :=
  (hordered.descendants_sorted (scopeOf_lt hordered v)).filter _

/-- Where the search stands after some of the mentions: the holders are the
variable and what the tracked references among them were copied to, and none of
these references has ended it. -/
structure Reached (k : Tracker) (v : NodeId) (done holders : List NodeId) : Prop where
  mem_iff : ∀ d, d ∈ holders ↔ d = v ∨ ∃ r ∈ done, k.Tracked v r ∧ k.Copies r d
  going : ∀ r ∈ done, k.Tracked v r → ∀ o, ¬k.Ends r o

omit hordered in
theorem Reached.start (v : NodeId) : k.Reached v [] [v] where
  mem_iff := by simp
  going := by simp

variable {done rest holders : List NodeId}

/-- Whether the next mention is tracked shows in the holders. -/
theorem Reached.tracked_iff (h : k.Reached v done holders)
    (hsplit : k.mentionsAfter v = done ++ m :: rest) :
    k.Tracked v m ↔ ∃ d ∈ holders, k.Names m d := by
  have hsorted := mentionsAfter_sorted hordered (v := v)
  rw [hsplit, List.pairwise_append, List.pairwise_cons] at hsorted
  obtain ⟨-, ⟨hafter, -⟩, hbefore⟩ := hsorted
  have hm : k.IsMention v m := by
    rw [← mem_mentionsAfter hordered, hsplit]
    simp
  constructor
  · intro htracked
    cases htracked with
    | own _ hnames => exact ⟨v, (h.mem_iff v).mpr (.inl rfl), hnames⟩
    | @copy earlier _ d hearlier hlt hcopies _ hnames =>
        refine ⟨d, (h.mem_iff d).mpr (.inr ⟨earlier, ?_, hearlier, hcopies⟩), hnames⟩
        -- what stands before `m` in the sorted list has been read
        have hmem := (mem_mentionsAfter hordered).mpr hearlier.isMention
        rw [hsplit, List.mem_append, List.mem_cons] at hmem
        rcases hmem with hmem | rfl | hmem
        · exact hmem
        · exact absurd hlt (Nat.lt_irrefl _)
        · exact absurd (hafter earlier hmem) (Nat.lt_asymm hlt)
  · rintro ⟨d, hd, hnames⟩
    rcases (h.mem_iff d).mp hd with rfl | ⟨earlier, hmem, hearlier, hcopies⟩
    · exact .own hm hnames
    · exact .copy hearlier (hbefore earlier hmem m List.mem_cons_self) hcopies hm hnames

omit hordered in
theorem Reached.pass (h : k.Reached v done holders) (hm : ¬k.Tracked v m) :
    k.Reached v (done ++ [m]) holders where
  mem_iff d := by
    rw [h.mem_iff]
    simp only [List.mem_append, List.mem_singleton, or_and_right, exists_or, exists_eq_left, hm,
      false_and, or_false]
  going r hr htracked := by
    rcases List.mem_append.mp hr with hr | hr
    · exact h.going r hr htracked
    · exact absurd (List.mem_singleton.mp hr ▸ htracked) hm

omit hordered in
/-- A mention that ends nothing adds what it was copied to. -/
theorem Reached.read {holders' : List NodeId} (h : k.Reached v done holders) (hm : k.Tracked v m)
    (hgoing : ∀ o, ¬k.Ends m o) (hholders : ∀ d, d ∈ holders' ↔ d ∈ holders ∨ k.Copies m d) :
    k.Reached v (done ++ [m]) holders' where
  mem_iff d := by
    rw [hholders, h.mem_iff]
    simp only [List.mem_append, List.mem_singleton, or_and_right, exists_or, exists_eq_left, hm,
      true_and, or_assoc]
  going r hr htracked := by
    rcases List.mem_append.mp hr with hr | hr
    · exact h.going r hr htracked
    · exact List.mem_singleton.mp hr ▸ hgoing

/-- The rest of the mentions settles what becomes of the value. -/
theorem Reached.settles (h : k.Reached v done holders) (hsplit : k.mentionsAfter v = done ++ rest) :
    k.Settles v (k.follow holders rest) := by
  induction rest generalizing done holders with
  | nil =>
      refine .inr ⟨rfl, fun r htracked => h.going r ?_ htracked⟩
      rw [List.append_nil] at hsplit
      exact hsplit ▸ (mem_mentionsAfter hordered).mpr htracked.isMention
  | cons m rest ih =>
      have hnext : k.mentionsAfter v = (done ++ [m]) ++ rest := by
        rw [hsplit, List.append_assoc, List.singleton_append]
      have htracked := h.tracked_iff hordered hsplit
      rw [← any_contains_iff] at htracked
      have hkind : k.view.tree.kind m = .reference := by
        refine ((mem_mentionsAfter hordered (v := v)).mp ?_).kind
        rw [hsplit]
        simp
      rw [follow]
      split
      · rename_i hany
        have hm := htracked.mpr hany
        split
        · rename_i o huse
          refine .inl ⟨m, hm, (use_eq_ends_iff hordered hkind).mp huse, fun r' hr' o' ho' => ?_⟩
          refine Nat.le_of_not_lt fun hlt => ?_
          -- an earlier one would have been read and would have ended the search
          have hmem := (mem_mentionsAfter hordered).mpr hr'.isMention
          have hsorted := mentionsAfter_sorted hordered (v := v)
          rw [hsplit, List.pairwise_append, List.pairwise_cons] at hsorted
          rw [hsplit, List.mem_append, List.mem_cons] at hmem
          rcases hmem with hmem | rfl | hmem
          · exact h.going r' hmem hr' o' ho'
          · exact Nat.lt_irrefl _ hlt
          · exact Nat.lt_asymm hlt (hsorted.2.1.1 r' hmem)
        · rename_i holder huse
          have hcopies := (use_eq_copies_iff hordered hkind).mp huse
          refine ih (h.read hm (fun o ho => ?_) fun d => ?_) hnext
          · rw [← use_eq_ends_iff hordered hkind, huse] at ho
            cases ho
          · rw [← use_eq_copies_iff hordered hkind, huse, Use.copies.injEq, List.mem_cons,
              or_comm, eq_comm]
        · rename_i huse
          refine ih (h.read hm (fun o ho => ?_) fun d => ?_) hnext
          · rw [← use_eq_ends_iff hordered hkind, huse] at ho
            cases ho
          · simp [← use_eq_copies_iff hordered hkind, huse]
      · rename_i hany
        exact ih (h.pass (mt htracked.mp hany)) hnext

theorem track_settles (v : NodeId) : k.Settles v (k.track v) :=
  (Reached.start v).settles hordered rfl

theorem Settles.unique (h : k.Settles v o) (h' : k.Settles v o') : o = o' := by
  rcases h with ⟨r, h⟩ | ⟨rfl, hnever⟩ <;> rcases h' with ⟨r', h'⟩ | ⟨rfl, hnever'⟩
  · obtain rfl : r = r' := Nat.le_antisymm (h.first r' h'.tracked o' h'.ends)
      (h'.first r h.tracked o h.ends)
    have hkind := h.tracked.isMention.kind
    have huse := use_of_ends hordered hkind h.ends
    rw [use_of_ends hordered hkind h'.ends] at huse
    cases huse
    rfl
  · exact absurd h.ends (hnever' r h.tracked o)
  · exact absurd h'.ends (hnever r' h'.tracked o')
  · rfl

theorem track_eq_iff : k.track v = o ↔ k.Settles v o :=
  ⟨fun h => h ▸ track_settles hordered v, fun h => (track_settles hordered v).unique hordered h⟩

/-- No use leaks a value, so this outcome is left to the end of the search. -/
theorem track_eq_leaked_iff : k.track v = .leaked ↔ k.NeverEnds v := by
  rw [track_eq_iff hordered]
  refine ⟨?_, fun h => .inr ⟨rfl, h⟩⟩
  rintro (⟨r, h⟩ | ⟨-, h⟩)
  · cases h.ends
  · exact h

end

/-- The outcome for a variable is that of the first tracked reference whose use ends
the search, and the value has leaked just if there is none. What a variable with at
most one child besides its annotations holds is its initializer. -/
theorem track_is_first_end {b : Builder} (hb : b.Made) (htree : k.view.tree = b.build)
    (v : NodeId) :
    (∀ o, k.track v = o ↔ (∃ r, k.IsFirstEnd v r o) ∨ (o = .leaked ∧ k.NeverEnds v)) ∧
      (k.track v = .leaked ↔ k.NeverEnds v) ∧
      ∀ d r, k.view.tree.kind d = .localVariable → k.view.tree.kind r = .reference →
        ((k.view.tree.children d).filter fun c => k.view.tree.kind c != .annotationUse).length ≤ 1 →
        (k.view.tree.Holds d r ↔
          ∃ i, k.view.tree.initializer d = some i ∧ k.view.tree.Passes i r) := by
  have hordered : k.view.tree.Ordered := htree ▸ hb.ordered
  exact ⟨fun o => track_eq_iff hordered, track_eq_leaked_iff hordered,
    fun d r => Tree.holds_iff_initializer⟩

/-- The block of `a = obtain(); b = a; b.recycle();`. -/
def recycledCopy : Builder :=
  (((((((((((Builder.start default .source .javaFile none default).enter
    { kind := .block }).enter
    { kind := .localVariable, name := some "a" }).leaf
    { kind := .call, name := some "obtain" }).leave).enter
    { kind := .localVariable, name := some "b" }).leaf
    { kind := .reference, name := some "a" }).leave).enter
    { kind := .call, name := some "recycle" }).leaf
    { kind := .reference, name := some "b" }).setQualifier 6 7).leave

def recycling : Tracker where
  view := { tree := recycledCopy.build, symbols := default }
  isCleanup m := m.name == "recycle"

theorem recycling_first_end : ∃ r, recycling.IsFirstEnd 2 r .cleanedUp := by
  have hb : recycledCopy.Made :=
    (((((((((((Builder.Made.start ..).enter _).enter _).leaf _).leave).enter _).leaf _).leave).enter
      _).leaf _).setQualifier 6 7).leave
  have htrack : recycling.track 2 = .cleanedUp := by decide +kernel
  exact (((track_is_first_end hb rfl 2).1 .cleanedUp).mp htrack).resolve_right (by simp)

end Escape.Tracker

end LintEngine
