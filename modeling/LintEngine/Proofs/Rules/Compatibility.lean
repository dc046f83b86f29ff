import LintEngine.Proofs.Literal
import LintEngine.Proofs.Rules.Duplicates

/-!
Values that carry a typedef, where a typedef is required.

The members of two typedefs are compared by what is known about them: by the
field, or else by the value. A member about which neither is known is the same as
no member, not even as itself. So typedefs are compared transitively, but a
typedef admits its own values just if something is known about all its members.
-/

namespace LintEngine.Rules

/-! ### Members -/

namespace Constant

def IsKnown (c : Constant) : Prop := c.field.isSome ∨ c.value.any fun x => x == x

def key? (c : Constant) : Option (FieldName ⊕ Literal ⊕ Float.Model.UnpackedFloat) :=
  match c.field with
  | some f => some (.inl f)
  | none => (c.value.bind Literal.meaning?).map .inr

/-- Members are the same just if they have the same key. -/
theorem isSame_iff {c d : Constant} :
    c.isSame d = true ↔ ∃ key, c.key? = some key ∧ d.key? = some key := by
  rw [isSame, key?, key?]
  cases c.field with
  | some f =>
      cases d.field with
      | some g => simp [eq_comm (a := g)]
      | none => cases d.value.bind Literal.meaning? <;> simp
  | none =>
      cases d.field with
      | some g => cases c.value.bind Literal.meaning? <;> simp
      | none =>
          cases c.value with
          | none => simp
          | some x =>
              cases d.value with
              | none => simp
              | some y =>
                  change (x == y) = true ↔ _
                  rw [Literal.beq_iff]
                  simp

theorem isSame_trans {c d e : Constant} (h : c.isSame d = true) (h' : d.isSame e = true) :
    c.isSame e = true := by
  obtain ⟨key, hc, hd⟩ := isSame_iff.mp h
  obtain ⟨key', hd', he⟩ := isSame_iff.mp h'
  obtain rfl := Option.some.inj (hd.symm.trans hd')
  exact isSame_iff.mpr ⟨key, hc, he⟩

theorem isSame_self_iff {c : Constant} : c.isSame c = true ↔ c.IsKnown := by
  rw [isSame, IsKnown]
  cases c.field with
  | some f => simp
  | none => cases c.value <;> simp

/-- What is the same as some member is the same as itself. -/
theorem isKnown_of_isSame {c d : Constant} (h : c.isSame d = true) : d.IsKnown := by
  obtain ⟨key, -, hd⟩ := isSame_iff.mp h
  exact isSame_self_iff.mp (isSame_iff.mpr ⟨key, hd, hd⟩)

end Constant

/-! ### Typedefs -/

namespace Typedef

def Admits (d other : Typedef) : Prop :=
  ∀ c ∈ other.constants, ∃ m ∈ d.constants, m.isSame c = true

theorem Admits.trans {s t u : Typedef} (h : u.Admits t) (h' : t.Admits s) : u.Admits s := by
  intro c hc
  obtain ⟨m, hm, hsame⟩ := h' c hc
  obtain ⟨n, hn, hsame'⟩ := h m hm
  exact ⟨n, hn, Constant.isSame_trans hsame' hsame⟩

theorem admits_self_iff {d : Typedef} : d.Admits d ↔ ∀ c ∈ d.constants, c.IsKnown := by
  constructor
  · intro h c hc
    obtain ⟨m, -, hsame⟩ := h c hc
    exact Constant.isKnown_of_isSame hsame
  · exact fun h c hc => ⟨c, hc, Constant.isSame_self_iff.mpr (h c hc)⟩

def members (a : Annotation) : List Expr :=
  match a.value? with
  | some (.array items) => items
  | some e => [e]
  | none => []

/-- A member that resolves to a field, or has a value that equals itself. -/
def IsKnownMember (v : View) (a : Annotation) (e : Expr) : Prop :=
  (fieldOf? v e (View.annotationScope a)).isSome ∨
    (v.evaluate e (View.annotationScope a)).any fun x => x == x

instance (v : View) (a : Annotation) (e : Expr) : Decidable (IsKnownMember v a e) :=
  inferInstanceAs (Decidable (_ ∨ _))

theorem constants_ofAnnotation? {v : View} {a : Annotation} {d : Typedef}
    (h : ofAnnotation? v a = some d) :
    d.constants = (members a).map fun e =>
      { expr := e, field := fieldOf? v e (View.annotationScope a),
        value := v.evaluate e (View.annotationScope a) } := by
  rw [ofAnnotation?] at h
  dsimp only at h
  split at h
  · cases h
    rfl
  · cases h

end Typedef

/-! ### Values -/

/-- A value with a typedef of its own: that of the method that is called, or of
the parameter, variable or field that is named. -/
inductive IsTypedBy (v : View) (d : Typedef) (id : NodeId) : Prop where
  | call {m : MethodRef} (kind : v.tree.kind (v.tree.skipParentheses id) = .call)
      (bound : v.resolveCall (v.tree.skipParentheses id) = some m)
      (typed : Typedef.find? v (v.methodAnnotations m) = some d)
  | declared (name : String) (decl : NodeId)
      (kind : v.tree.kind (v.tree.skipParentheses id) = .reference)
      (named : v.tree.name (v.tree.skipParentheses id) = some name)
      (bound : v.tree.resolveLocal name (v.tree.skipParentheses id) = some decl)
      (kindOfDecl : v.tree.kind decl = .parameter ∨ v.tree.kind decl = .localVariable)
      (typed : Typedef.find? v (v.nodeAnnotations decl) = some d)
  | field {f : FieldName}
      (bound : Typedef.fieldOf? v (Expr.ofNode v.tree (v.tree.skipParentheses id))
        (.node (v.tree.skipParentheses id)) = some f)
      (typed : Typedef.find? v (v.allAnnotations (.field f.1 f.2) false) = some d)

theorem ofNode_reference {t : Tree} {id : NodeId} {name : String} (hkind : t.kind id = .reference)
    (hname : t.name id = some name) : Expr.ofNode t id = .reference none name := by
  have hkind : (t.node id).kind = .reference := hkind
  have hname : (t.node id).name = some name := hname
  rw [Expr.ofNode]
  simp only [hkind, hname]

theorem ofNode_call {t : Tree} {id : NodeId} (hkind : t.kind id = .call) :
    Expr.ofNode t id = .unknown := by
  have hkind : (t.node id).kind = .call := hkind
  rw [Expr.ofNode]
  simp only [hkind]

namespace Check

variable {k : Check} {other : Typedef}

theorem compare_eq_none_iff : k.compare other = none ↔ k.typedef.Admits other := by
  have hempty : ((k.typedef.unmatched other).map Constant.render).isEmpty = true ↔
      k.typedef.Admits other := by
    simp [Typedef.unmatched, Typedef.Admits]
  rw [compare, ← hempty]
  split <;> simp_all

/-- A name of a parameter or local variable with a typedef. -/
theorem expr_variable {n : Nat} {name : String} {id decl : NodeId}
    (hbound : k.view.tree.resolveLocal name id = some decl)
    (hdeclared : k.view.tree.kind decl = .parameter ∨ k.view.tree.kind decl = .localVariable)
    (htyped : Typedef.find? k.view (k.view.nodeAnnotations decl) = some other) :
    k.expr (n + 1) (.reference none name) (.node id) = k.compare other := by
  rw [expr]
  simp only [hbound, Option.filter_some]
  rw [if_pos (by simpa using hdeclared)]
  simp only [htyped]

/-- A name that means a field means no parameter and no local variable. -/
theorem filter_resolveLocal_of_fieldOf? {v : View} {id : NodeId} {name : String} {f : FieldName}
    (h : Typedef.fieldOf? v (.reference none name) (.node id) = some f) :
    ((v.tree.resolveLocal name id).filter fun d =>
      v.tree.kind d == .parameter || v.tree.kind d == .localVariable) = none := by
  rw [Typedef.fieldOf?, View.resolveField] at h
  dsimp only at h
  cases hlocal : v.tree.resolveLocal name id with
  | none => rfl
  | some d =>
      rw [hlocal] at h
      by_cases hfield : v.tree.kind d = .field
      · simp [hfield]
      · simp [hfield] at h

/-- A name of a field with a typedef is compared by this typedef, unless it is a
member itself or an array. -/
theorem expr_field {n : Nat} {e : Expr} {id : NodeId} {f : FieldName}
    (hbound : Typedef.fieldOf? k.view e (.node id) = some f)
    (htyped : Typedef.find? k.view (k.view.allAnnotations (.field f.1 f.2) false) = some other) :
    k.expr (n + 1) e (.node id) = none ∨ k.expr (n + 1) e (.node id) = k.compare other := by
  cases e with
  | reference qualifier name =>
      unfold expr
      dsimp only
      split
      · rename_i d hd
        cases qualifier with
        | none => cases hd.symm.trans (filter_resolveLocal_of_fieldOf? hbound)
        | some q => cases hd
      · rw [hbound]
        dsimp only
        split
        · exact .inl rfl
        · split
          · exact .inl rfl
          · split
            · exact .inl rfl
            · rw [htyped]
              exact .inr rfl
  | _ => cases hbound

/-- A value with a typedef of its own is compared by this typedef, if at all. -/
theorem node_of_isTypedBy {id : NodeId} (h : IsTypedBy k.view other id) :
    k.node id = none ∨ k.node id = k.compare other := by
  rw [node]
  cases h with
  | call hkind hbound htyped =>
      rw [if_pos (beq_iff_eq.mpr hkind), hbound]
      change (Typedef.find? k.view _).bind k.compare = none ∨
        (Typedef.find? k.view _).bind k.compare = k.compare other
      rw [htyped]
      exact .inr rfl
  | declared name decl hkind hnamed hbound hdeclared htyped =>
      rw [if_neg (by simp [hkind]), ofNode_reference hkind hnamed]
      exact .inr (expr_variable hbound hdeclared htyped)
  | field hbound htyped =>
      have hkind : k.view.tree.kind (k.view.tree.skipParentheses id) ≠ .call := by
        intro hkind
        rw [ofNode_call hkind] at hbound
        cases hbound
      rw [if_neg (by simpa using hkind)]
      exact expr_field hbound htyped

variable (k) in
/-- Where a typedef is required, it admits itself and every value that carries
it. -/
def AcceptsOwnValues : Prop :=
  k.compare k.typedef = none ∧ ∀ id, IsTypedBy k.view k.typedef id → k.node id = none

theorem acceptsOwnValues_iff_admits : k.AcceptsOwnValues ↔ k.typedef.Admits k.typedef := by
  rw [AcceptsOwnValues, ← compare_eq_none_iff]
  refine ⟨And.left, fun h => ⟨h, fun id hid => ?_⟩⟩
  rcases node_of_isTypedBy hid with hnone | hcompare
  · exact hnone
  · rw [hcompare, h]

end Check

/-- A typedef is compatible with itself just if all its members are known, and
typedefs are compatible transitively. -/
theorem acceptsOwnValues_iff_isKnownMember {v : View} {a : Annotation} {d : Typedef}
    (h : Typedef.ofAnnotation? v a = some d) (range : Option Annotation) :
    (Check.AcceptsOwnValues ⟨v, d, range⟩ ↔
      ∀ e ∈ Typedef.members a, Typedef.IsKnownMember v a e) ∧
    ∀ s t u : Typedef, Check.compare ⟨v, t, range⟩ s = none →
      Check.compare ⟨v, u, range⟩ t = none → Check.compare ⟨v, u, range⟩ s = none := by
  constructor
  · rw [Check.acceptsOwnValues_iff_admits, Typedef.admits_self_iff,
      Typedef.constants_ofAnnotation? h, List.forall_mem_map]
    rfl
  · intro s t u hst htu
    rw [Check.compare_eq_none_iff] at hst htu ⊢
    exact htu.trans hst

/-! ### A member of a class that is not there -/

def withMode (second : Builder → Builder) (b : Builder) : Builder :=
  b.within { kind := .classDecl, name := some "Mode", classKind := some .annotationType }
    (·.within { kind := .annotationUse, name := some "androidx.annotation.IntDef" }
      (·.within { kind := .annotationArgument }
        (·.within { kind := .arrayInit }
          fun b => second (b.leaf { kind := .reference, name := some "ONE" }))))

def withModeUse (b : Builder) : Builder :=
  b.within { kind := .method, name := some "f", typeName := some "void" } fun b =>
    (b.within { kind := .parameter, name := some "m", typeName := some "int" }
      (·.leaf { kind := .annotationUse, name := some "Mode" })).leaf
        { kind := .reference, name := some "m" }

/-- The second member of the typedef: the number 7, or a field of a class that is not there. -/
def secondMember (foreign : Bool) (b : Builder) : Builder :=
  if foreign then
    let b := b.enter { kind := .select, name := some "TWO" }
    ((b.leaf { kind := .reference, name := some "Other" }).setQualifier b.current b.next).leave
  else b.leaf { kind := .literal, literal := some (.int 7) }

def modeTree (foreign : Bool) : Tree :=
  (Builder.start ⟨"A.java"⟩ .source .javaFile none {})
    |>.within { kind := .classDecl, name := some "A" }
      (withMode (secondMember foreign) ∘ withModeUse ∘ withConstant "ONE" 1)
    |>.build

def modeView (foreign : Bool) : View where
  tree := modeTree foreign
  symbols := SymbolTable.ofUnits [modeTree foreign] []

/-- The value that is used has the typedef of the parameter. -/
theorem modeView_isTypedBy {foreign : Bool} {d : Typedef}
    (h : Typedef.find? (modeView foreign) ((modeView foreign).nodeAnnotations 5) = some d) :
    IsTypedBy (modeView foreign) d 7 := by
  have hskip : (modeView foreign).tree.skipParentheses 7 = 7 := by
    cases foreign <;> decide +kernel
  have hkind : (modeView foreign).tree.kind 5 = .parameter := by
    cases foreign <;> decide +kernel
  refine .declared "m" 5 ?_ ?_ ?_ (.inl hkind) h <;> rw [hskip] <;>
    cases foreign <;> decide +kernel

theorem modeView_acceptsOwnValues :
    ∃ a d, Typedef.ofAnnotation? (modeView false) a = some d ∧ IsTypedBy (modeView false) d 7 ∧
      Check.AcceptsOwnValues ⟨modeView false, d, none⟩ := by
  have hsome : (Typedef.find? (modeView false) ((modeView false).nodeAnnotations 5)).isSome := by
    decide +kernel
  have hknown : ∀ a ∈ (modeView false).nodeAnnotations 5, ∀ e ∈ Typedef.members a,
      Typedef.IsKnownMember (modeView false) a e := by
    decide +kernel
  obtain ⟨d, hd⟩ := Option.isSome_iff_exists.mp hsome
  obtain ⟨a, ha, hmade⟩ := List.exists_of_findSome?_eq_some hd
  exact ⟨a, d, hmade, modeView_isTypedBy hd,
    (acceptsOwnValues_iff_isKnownMember hmade none).1.mpr (hknown a ha)⟩

/-- The value of the parameter is refused where its own typedef is required. -/
theorem modeView_not_acceptsOwnValues :
    ∃ a d, Typedef.ofAnnotation? (modeView true) a = some d ∧ IsTypedBy (modeView true) d 7 ∧
      Check.node ⟨modeView true, d, none⟩ 7 ≠ none ∧
      ¬Check.AcceptsOwnValues ⟨modeView true, d, none⟩ := by
  have hrefused : (Typedef.find? (modeView true) ((modeView true).nodeAnnotations 5)).any
      (fun d => (Check.node ⟨modeView true, d, none⟩ 7).isSome) = true := by
    decide +kernel
  obtain ⟨d, hd, hnode⟩ := (Option.any_eq_true _ _).mp hrefused
  obtain ⟨a, -, hmade⟩ := List.exists_of_findSome?_eq_some hd
  have hnode : Check.node ⟨modeView true, d, none⟩ 7 ≠ none := Option.isSome_iff_ne_none.mp hnode
  have htyped := modeView_isTypedBy hd
  exact ⟨a, d, hmade, htyped, hnode, fun h => hnode (h.2 7 htyped)⟩

end LintEngine.Rules
