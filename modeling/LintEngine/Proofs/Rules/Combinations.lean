import LintEngine.Proofs.Rules.Compatibility

/-!
Values that are made of the members of a typedef.

A member can be written with its name, behind a cast, or as one of the branches of a
conditional. The members of a flag typedef can also be combined bit by bit, with no
flag at all written as 0 and all flags as -1. Main statement: a value that is made in
this way is accepted, however it is nested, and wherever its names are looked up.
-/

namespace LintEngine.Rules

namespace Check

variable {k : Check} {scope : EvalScope} {e : Expr}

/-- An expression names a member of the typedef: the field it resolves to is listed.
Where a variable is in the way, it resolves to no field. -/
def NamesMember (k : Check) (scope : EvalScope) (e : Expr) : Prop :=
  ∃ f, Typedef.fieldOf? k.view e scope = some f ∧ ∃ c ∈ k.typedef.constants, c.field = some f

/-- The values made of members. The condition of a conditional may be anything. -/
inductive IsLegitimate (k : Check) (scope : EvalScope) : Expr → Prop
  | member {e : Expr} (h : k.NamesMember scope e) : IsLegitimate k scope e
  | conditional (condition : Expr) {yes no : Expr} (hyes : IsLegitimate k scope yes)
      (hno : IsLegitimate k scope no) : IsLegitimate k scope (.conditional condition yes no)
  | cast (typeName : String) {e : Expr} (h : IsLegitimate k scope e) :
      IsLegitimate k scope (.cast typeName e)
  | plus {e : Expr} (h : IsLegitimate k scope e) : IsLegitimate k scope (.unary "+" e)
  | zero {l : Literal} (hflag : k.typedef.flag = true) (hl : l.asInt = some 0) :
      IsLegitimate k scope (.literal l)
  | minusOne {l : Literal} (hflag : k.typedef.flag = true) (hl : l.asInt = some 1) :
      IsLegitimate k scope (.unary "-" (.literal l))
  | complement {e : Expr} (hflag : k.typedef.flag = true) (h : IsLegitimate k scope e) :
      IsLegitimate k scope (.unary "~" e)
  | bitwise {op : String} {l r : Expr} (hflag : k.typedef.flag = true)
      (hop : op = "|" ∨ op = "&" ∨ op = "^") (hl : IsLegitimate k scope l)
      (hr : IsLegitimate k scope r) : IsLegitimate k scope (.binary op l r)

theorem NamesMember.hasField {f : FieldName} (h : k.NamesMember scope e)
    (hf : Typedef.fieldOf? k.view e scope = some f) : k.typedef.hasField f = true := by
  obtain ⟨g, hg, c, hc, hfield⟩ := h
  obtain rfl := Option.some.inj (hg.symm.trans hf)
  exact List.any_eq_true.mpr ⟨c, hc, beq_iff_eq.mpr hfield⟩

/-! ### One rule for each way to make a value -/

theorem expr_member (h : k.NamesMember scope e) (n : Nat) : k.expr (n + 1) e scope = none := by
  obtain ⟨f, hf, -⟩ := id h
  cases e with
  | reference qualifier name =>
      unfold expr
      dsimp only
      split
      · -- a variable of this name would be found instead of the field
        rename_i d hd
        cases scope with
        | inClass => cases hd
        | node at_ =>
            cases qualifier with
            | none => cases hd.symm.trans (filter_resolveLocal_of_fieldOf? hf)
            | some q => cases hd
      · simp only [hf, h.hasField hf, if_true]
  | _ => cases hf

theorem literal_zero {l : Literal} (hflag : k.typedef.flag = true) (hl : l.asInt = some 0) :
    k.literal l = none := by
  rw [literal, hflag, hl]
  rfl

theorem expr_zero {l : Literal} (hflag : k.typedef.flag = true) (hl : l.asInt = some 0) (n : Nat) :
    k.expr (n + 1) (.literal l) scope = none := by
  cases l with
  | null => rfl
  | _ => exact literal_zero hflag hl

theorem expr_minusOne {l : Literal} (hflag : k.typedef.flag = true) (hl : l.asInt = some 1)
    (n : Nat) : k.expr (n + 1) (.unary "-" (.literal l)) scope = none := by
  simp only [expr, hflag, if_true, Expr.literal?, Option.bind_some, hl, beq_self_eq_true,
    Bool.and_self]

/-- Of a sign or complement that the typedef admits, the operand is judged. -/
theorem expr_unary {op : String} {n : Nat} (hop : op ≠ "-")
    (hflag : k.typedef.flag = true ∨ op ≠ "~")
    (h : k.expr n e scope = none) : k.expr (n + 1) (.unary op e) scope = none := by
  rw [expr, beq_false_of_ne hop]
  rcases hflag with hflag | hne
  · simp only [hflag, if_true, Bool.false_and, Bool.false_eq_true, if_false, h]
  · simp only [beq_false_of_ne hne, Bool.false_and, Bool.false_eq_true, if_false, h, ite_self]

theorem expr_conditional {condition yes no : Expr} {n : Nat} (hyes : k.expr n yes scope = none)
    (hno : k.expr n no scope = none) :
    k.expr (n + 1) (.conditional condition yes no) scope = none := by
  simp only [expr, hyes, hno, Option.orElse_eq_orElse, Option.orElse_eq_or, Option.or_none]

theorem expr_bitwise {op : String} {l r : Expr} {n : Nat} (hflag : k.typedef.flag = true)
    (hop : op = "|" ∨ op = "&" ∨ op = "^") (hl : k.expr n l scope = none)
    (hr : k.expr n r scope = none) : k.expr (n + 1) (.binary op l r) scope = none := by
  have hop : (op == "&" || op == "|" || op == "^") = true := by
    rcases hop with rfl | rfl | rfl <;> rfl
  rw [expr]
  simp only [hop, if_true, hflag, Bool.not_true, Bool.false_eq_true, if_false, hl, hr]
  split <;> rfl

/-- What a value is made of decides at every depth, and beyond the greatest depth
everything is accepted. -/
theorem IsLegitimate.expr_eq_none (h : k.IsLegitimate scope e) (n : Nat) :
    k.expr n e scope = none := by
  induction n generalizing e with
  | zero => rfl
  | succ n ih =>
      cases h with
      | member h => exact expr_member h n
      | conditional condition hyes hno => exact expr_conditional (ih hyes) (ih hno)
      | cast typeName h => exact ih h
      | plus h => exact expr_unary (by decide) (.inr (by decide)) (ih h)
      | zero hflag hl => exact expr_zero hflag hl n
      | minusOne hflag hl => exact expr_minusOne hflag hl n
      | complement hflag h => exact expr_unary (by decide) (.inl hflag) (ih h)
      | bitwise hflag hop hl hr => exact expr_bitwise hflag hop (ih hl) (ih hr)

theorem not_isLegitimate_unknown : ¬k.IsLegitimate scope .unknown := by
  intro h
  cases h with
  | member h =>
      obtain ⟨f, hf, -⟩ := h
      cases hf

/-- A value made of members is accepted as an expression at any depth, in the scope
of a node or of a class, and as a node of the tree. -/
theorem legitimate_values_are_accepted (k : Check) :
    (∀ scope e, k.IsLegitimate scope e → ∀ n, k.expr n e scope = none) ∧
      ∀ id, k.IsLegitimate (.node (k.view.tree.skipParentheses id))
        (Expr.ofNode k.view.tree (k.view.tree.skipParentheses id)) → k.node id = none := by
  refine ⟨fun scope e h n => h.expr_eq_none n, fun id h => ?_⟩
  have hkind : k.view.tree.kind (k.view.tree.skipParentheses id) ≠ .call := by
    intro hkind
    rw [ofNode_call hkind] at h
    exact not_isLegitimate_unknown h
  rw [node, if_neg (by simpa using hkind)]
  exact h.expr_eq_none maxSteps

/-! ### Flags -/

def oneFlag : Check where
  view := modeView false
  typedef := { constants := [⟨.reference none "ONE", some ("A", "ONE"), some (.int 1)⟩],
               flag := true, isOpen := false }
  range := none

theorem oneFlag_namesMember : oneFlag.NamesMember (.inClass "A") (.reference none "ONE") ∧
    oneFlag.NamesMember (.node 12) (.reference none "ONE") := by
  have hclass : Typedef.fieldOf? oneFlag.view (.reference none "ONE") (.inClass "A") =
      some ("A", "ONE") := by
    decide +kernel
  have hnode : Typedef.fieldOf? oneFlag.view (.reference none "ONE") (.node 12) =
      some ("A", "ONE") := by
    decide +kernel
  exact ⟨⟨_, hclass, _, List.mem_singleton_self _, rfl⟩,
    ⟨_, hnode, _, List.mem_singleton_self _, rfl⟩⟩

/-- `c ? (int) (~ONE & 0) : -1` in the scope of the class, and `ONE` at its node. -/
theorem oneFlag_accepts :
    oneFlag.expr maxSteps
        (.conditional (.reference none "c")
          (.cast "int" (.binary "&" (.unary "~" (.reference none "ONE")) (.literal (.int 0))))
          (.unary "-" (.literal (.int 1))))
        (.inClass "A") = none ∧
      oneFlag.node 12 = none := by
  have hskip : oneFlag.view.tree.skipParentheses 12 = 12 := by decide +kernel
  have hkind : oneFlag.view.tree.kind 12 = .reference := by decide +kernel
  have hname : oneFlag.view.tree.name 12 = some "ONE" := by decide +kernel
  obtain ⟨hclass, hnode⟩ := oneFlag_namesMember
  constructor
  · refine (legitimate_values_are_accepted oneFlag).1 _ _ (.conditional _ (.cast _ ?_) ?_) maxSteps
    · exact .bitwise rfl (.inr (.inl rfl)) (.complement rfl (.member hclass)) (.zero rfl rfl)
    · exact .minusOne rfl rfl
  · refine (legitimate_values_are_accepted oneFlag).2 12 ?_
    rw [hskip, ofNode_reference hkind hname]
    exact .member hnode

end Check

end LintEngine.Rules
