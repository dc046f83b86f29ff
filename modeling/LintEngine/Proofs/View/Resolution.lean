import LintEngine.Proofs.Symbols.Outward
import LintEngine.Proofs.Tree.Parentheses
import LintEngine.Proofs.Tree.Ranges
import LintEngine.Proofs.View.Embeddings

/-!
Resolution that notices when it is cut short. `resolving`, `typing`, `declaring` and
`calling` bind names, types and calls as `resolveWithin`, `typeWithin`, `declaredWithin`
and `callWithin` do, but say so when the calls on some path are more than allowed, and
leave the searches through the classes around a class to themselves. Their result is
`none` where they are not through, so a result for some number of calls means that
the functions come to an end when nothing counts their calls.

That they do come to an end rests on where they go. `Asks` lists their calls of each
other, and `Goes` says where such a call leads: to an easier question about the same
node, further down, to a declaration that asks nothing itself, or from a reference back
to a variable that ends before the reference. Together with the easiness of the
question, the last index below a node and the number of nodes below it decrease.
-/

namespace LintEngine

namespace SymbolTable

/-- A search through the classes around a class, left to itself. -/
def seekScopes {α : Type} (s : SymbolTable) (ask : String → Option α) :
    Option String → Option (Option α)
  | none => some none
  | some name => s.askOutward ask name

theorem seekScopes_eq {α : Type} {s : SymbolTable} (h : ∀ name, s.EndsOutward name)
    (ask : String → Option α) (name : Option String) :
    s.seekScopes ask name = some (s.askScopes ask name) := by
  cases name with
  | none => rfl
  | some name =>
      obtain ⟨r, hr⟩ := Option.isSome_iff_exists.mp (isSome_askOutward_iff.mpr (.inl (h name)))
      rw [seekScopes, hr, askScopes_of_askOutward hr]

end SymbolTable

namespace View

variable (v : View)

/-! ### The functions -/

def seekingField (id : NodeId) (name : String) : Option (Option Declaration) :=
  (v.symbols.seekScopes (v.memberField name) (v.classNameOf id)).map
    fun member => member <|> v.importedField name

def seekingReceiver (id : NodeId) (name : String) (arity : Nat) : Option (Option String) :=
  let innermost := v.classNameOf id
  if name == "super" then some ((innermost.bind v.symbols.class?).bind (·.superclass))
  else if name == "this" then some innermost
  else
    let imported := v.tree.imports.static.findSome? (Text.dropSuffix? ("." ++ name))
    (v.symbols.seekScopes (v.methodHolder name arity) innermost).map
      fun member => member <|> imported <|> innermost

mutual

/-- What a reference, call, declaration or annotation refers to. The kinds of node left
out ask nothing else. -/
def resolving : Nat → NodeId → Option (Option Declaration)
  | 0, _ => none
  | n + 1, id =>
    let t := v.tree
    match t.kind id with
    | .reference =>
      match t.name id with
      | none => some none
      | some name =>
        if name == "this" then some ((v.classNameOf id).map .classNamed)
        else match t.resolveLocal name id with
          | some decl => resolving n decl
          | none => (v.seekingField id name).map fun field =>
              field <|> (v.qualifyType name id).map .classNamed
    | .select =>
      match t.name id, t.qualifier id with
      | some name, some q => do
        match ← resolving n q with
        | some (.classNamed owner) => some (some (v.memberOfClass owner name))
        | some _ =>
          let owner ← typing n q
          some ((owner.bind fun owner => v.symbols.findField owner name).map fun (c, _) =>
            .field c.name name)
        | none => some (v.packagedClass id name)
      | _, _ => some none
    | .call => do
      let method ← calling n id
      some (method.bind MethodRef.declaration)
    | .parenthesized | .cast =>
      let inner := t.skipParentheses id
      if inner == id then some none else resolving n inner
    | _ => some (v.resolveWithin 1 id)

def typing : Nat → NodeId → Option (Option String)
  | 0, _ => none
  | n + 1, id =>
    let t := v.tree
    let child := fun (i : Nat) => match (t.children id)[i]? with
      | some c => typing n c
      | none => some none
    match t.kind id with
    | .reference | .select => do
      match ← resolving n id with
      | some (.localNode decl) => declaring n decl
      | some (.field owner name) =>
        match v.symbols.findField owner name with
        | some (_, f) => some f.typeName
        | none => some (if t.kind id == .select && name == "length" then some "int" else none)
      | some (.classNamed c) => some (some c)
      | _ => some none
    | .call => do
      let method ← calling n id
      some ((method.bind (·.symbol)).bind (·.returnType))
    | .parenthesized =>
      match (t.children id).getLast? with
      | some c => typing n c
      | none => some none
    | .conditional => child 1
    | .assignment | .unary => child 0
    | .binary =>
      match (t.node id).operator with
      | none => some none
      | some op =>
        if isRelational op then some (some "boolean")
        else do
          let lhs ← child 0
          let rhs ← child 1
          some (operandType op lhs rhs)
    | _ => some (v.typeWithin 1 id)

def declaring : Nat → NodeId → Option (Option String)
  | 0, _ => none
  | n + 1, id =>
    match v.tree.typeName id with
    | none => some none
    | some written =>
      if written == "var" then
        match v.tree.initializer id with
        | some i => typing n i
        | none => some none
      else some (some ((v.qualifyType written id).getD (TypeName.strip written)))

def calling : Nat → NodeId → Option (Option MethodRef)
  | 0, _ => none
  | n + 1, id =>
    let t := v.tree
    match t.name id with
    | none => some none
    | some name => do
      let arity := (t.arguments id).length
      let receiver ← match t.qualifier id with
        | none => v.seekingReceiver id name arity
        | some q =>
          if t.kind q == .reference && t.name q == some "super" then
            some (((v.classNameOf id).bind v.symbols.class?).bind (·.superclass))
          else do
            match ← resolving n q with
            | some (.classNamed c) => some (some c)
            | _ => typing n q
      some (some (v.bindMethod name arity receiver))

end

/-! ### Their calls of each other -/

/-- One of the functions with the node it is called for. -/
inductive Query where
  | resolve (id : NodeId)
  | type (id : NodeId)
  | declared (id : NodeId)
  | call (id : NodeId)

namespace Query

def node : Query → NodeId
  | resolve id | type id | declared id | call id => id

/-- How many calls a query can lead to before all that is left to ask is about nodes
that are finished before its own. -/
def level : Query → Nat
  | declared _ | call _ => 2
  | resolve _ => 3
  | type _ => 4

theorem two_le_level (q : Query) : 2 ≤ q.level := by
  cases q <;> simp [level]

theorem level_le_four (q : Query) : q.level ≤ 4 := by
  cases q <;> simp [level]

end Query

/-- Answering a query can take an answer to another one. Not every call that is listed
is made: the type of a call's receiver, say, is asked for only if the receiver is not
a class. -/
inductive Asks : Query → Query → Prop
  | declaration {u d : NodeId} {name : String} (hkind : v.tree.kind u = .reference)
      (hname : v.tree.name u = some name) (hd : v.tree.resolveLocal name u = some d) :
      Asks (.resolve u) (.resolve d)
  | owner {u q : NodeId} (hkind : v.tree.kind u = .select) (hq : v.tree.qualifier u = some q) :
      Asks (.resolve u) (.resolve q)
  | ownerType {u q : NodeId} (hkind : v.tree.kind u = .select)
      (hq : v.tree.qualifier u = some q) : Asks (.resolve u) (.type q)
  | method {u : NodeId} (hkind : v.tree.kind u = .call) : Asks (.resolve u) (.call u)
  | inside {u : NodeId} (hkind : (v.tree.kind u).isTransparent = true)
      (hne : v.tree.skipParentheses u ≠ u) : Asks (.resolve u) (.resolve (v.tree.skipParentheses u))
  | meaning {u : NodeId} (hkind : v.tree.kind u = .reference ∨ v.tree.kind u = .select) :
      Asks (.type u) (.resolve u)
  | variableType {u d : NodeId} {name : String} (hkind : v.tree.kind u = .reference)
      (hname : v.tree.name u = some name) (hd : v.tree.resolveLocal name u = some d)
      (hvariable : v.tree.kind d = .localVariable ∨ v.tree.kind d = .parameter) :
      Asks (.type u) (.declared d)
  | result {u : NodeId} (hkind : v.tree.kind u = .call) : Asks (.type u) (.call u)
  | operand {u c : NodeId} (hc : c ∈ v.tree.children u) : Asks (.type u) (.type c)
  | initial {d i : NodeId} (htype : v.tree.typeName d = some "var")
      (hi : v.tree.initializer d = some i) : Asks (.declared d) (.type i)
  | receiver {u q : NodeId} (hq : v.tree.qualifier u = some q) : Asks (.call u) (.resolve q)
  | receiverType {u q : NodeId} (hq : v.tree.qualifier u = some q) : Asks (.call u) (.type q)

/-- So many calls on each path are enough to answer a query, and the answer is the one
that is found within a bound. -/
def SettledAt (n bound : Nat) : Query → Prop
  | .resolve id => v.resolving n id = some (v.resolveWithin bound id)
  | .type id => v.typing n id = some (v.typeWithin bound id)
  | .declared id => v.declaring n id = some (v.declaredWithin bound id)
  | .call id => v.calling n id = some (v.callWithin bound id)

/-! ### One step

The answer to a query is right if the answers to all the queries that it asks are. -/

section

variable {v} {u : NodeId} {q : Query} {n m : Nat}

/-- The type of a node is that of a variable only if a reference means the variable. -/
theorem asks_declared {d : NodeId} (hkind : v.tree.kind u = .reference ∨ v.tree.kind u = .select)
    (hd : v.resolveWithin m u = some (.localNode d)) : v.Asks (.type u) (.declared d) := by
  rcases hkind with hkind | hkind
  · obtain ⟨name, hname, hresolved, hvariable⟩ := exists_of_resolveWithin_reference hkind hd
    exact .variableType hkind hname hresolved hvariable
  · exact absurd hd (resolveWithin_select_ne_local hkind)

theorem settledAt_type (h : ∀ q, v.Asks (.type u) q → v.SettledAt n m q) :
    v.SettledAt (n + 1) (m + 1) (.type u) := by
  have hoperand : ∀ i : Nat, (match (v.tree.children u)[i]? with
      | some c => v.typing n c
      | none => some none) = some ((v.tree.children u)[i]?.bind fun c => v.typeWithin m c) := by
    intro i
    cases hc : (v.tree.children u)[i]? with
    | none => rfl
    | some c => exact h _ (.operand (List.mem_of_getElem? hc))
  rw [SettledAt, typeWithin, typing]
  cases hkind : v.tree.kind u with
  | reference | select =>
      have hname : v.tree.kind u = .reference ∨ v.tree.kind u = .select := by simp [hkind]
      have hmeaning : v.resolving n u = some (v.resolveWithin m u) := h _ (.meaning hname)
      simp only [hmeaning, Option.bind_eq_bind, Option.bind_some]
      cases hd : v.resolveWithin m u with
      | none => rfl
      | some decl =>
          cases decl with
          | localNode d => exact h _ (asks_declared hname hd)
          | field owner name =>
              simp only [Option.bind_some]
              cases v.symbols.findField owner name <;> rfl
          | _ => rfl
  | call =>
      have hmethod : v.calling n u = some (v.callWithin m u) := h _ (.result hkind)
      simp only [hmethod]
      rfl
  | parenthesized =>
      dsimp only
      cases hc : (v.tree.children u).getLast? with
      | none => rfl
      | some c => exact h _ (.operand (List.mem_of_getLast? hc))
  | conditional => exact hoperand 1
  | assignment | unary => exact hoperand 0
  | binary =>
      dsimp only
      cases (v.tree.node u).operator with
      | none => rfl
      | some op =>
          dsimp only
          split
          · rename_i hrelational
            simp [hrelational]
          · rename_i hrelational
            rw [hoperand 0, hoperand 1]
            simp [hrelational]
  | _ =>
      rw [typeWithin, hkind]

theorem settledAt_declared (h : ∀ q, v.Asks (.declared u) q → v.SettledAt n m q) :
    v.SettledAt (n + 1) (m + 1) (.declared u) := by
  rw [SettledAt, declaredWithin, declaring]
  cases htype : v.tree.typeName u with
  | none => rfl
  | some written =>
      simp only [Option.bind_eq_bind, Option.bind_some]
      split
      · rename_i hvar
        cases hi : v.tree.initializer u with
        | none => rfl
        | some i =>
            refine h _ (.initial ?_ hi)
            rw [htype, beq_iff_eq.mp hvar]
      · rfl

variable (hends : ∀ name, v.symbols.EndsOutward name)

include hends

theorem seekingField_eq (name : String) :
    v.seekingField u name = some (v.fieldInScope u name) := by
  rw [seekingField, SymbolTable.seekScopes_eq hends]
  rfl

theorem seekingReceiver_eq (name : String) (arity : Nat) :
    v.seekingReceiver u name arity = some (v.unqualifiedReceiver u name arity) := by
  simp only [seekingReceiver, unqualifiedReceiver, SymbolTable.seekScopes_eq hends]
  split
  · rfl
  · split <;> rfl

theorem settledAt_resolve (h : ∀ q, v.Asks (.resolve u) q → v.SettledAt n m q) :
    v.SettledAt (n + 1) (m + 1) (.resolve u) := by
  rw [SettledAt, resolveWithin, resolving]
  cases hkind : v.tree.kind u with
  | reference =>
      dsimp only
      cases hname : v.tree.name u with
      | none => rfl
      | some name =>
          simp only [Option.bind_eq_bind, Option.bind_some]
          split
          · rfl
          · cases hd : v.tree.resolveLocal name u with
            | some d => exact h _ (.declaration hkind hname hd)
            | none =>
                dsimp only
                rw [seekingField_eq hends]
                rfl
  | select =>
      dsimp only
      cases v.tree.name u with
      | none => rfl
      | some name =>
          cases hq : v.tree.qualifier u with
          | none => rfl
          | some q =>
              have howner : v.resolving n q = some (v.resolveWithin m q) := h _ (.owner hkind hq)
              have htype : v.typing n q = some (v.typeWithin m q) := h _ (.ownerType hkind hq)
              simp only [Option.bind_eq_bind, Option.bind_some, howner, htype]
              cases v.resolveWithin m q with
              | none => rfl
              | some decl =>
                  cases decl with
                  | classNamed owner => rfl
                  | _ =>
                      cases v.typeWithin m q with
                      | none => rfl
                      | some owner =>
                          simp only [Option.bind_some]
                          cases v.symbols.findField owner name <;> rfl
  | call =>
      have hmethod : v.calling n u = some (v.callWithin m u) := h _ (.method hkind)
      simp only [hmethod]
      rfl
  | parenthesized | cast =>
      dsimp only
      split
      · rfl
      · rename_i hne
        exact h _ (.inside (by rw [hkind]; rfl) (by simpa using hne))
  | _ =>
      rw [resolveWithin, hkind]

theorem settledAt_call (h : ∀ q, v.Asks (.call u) q → v.SettledAt n m q) :
    v.SettledAt (n + 1) (m + 1) (.call u) := by
  rw [SettledAt, callWithin, calling]
  cases v.tree.name u with
  | none => rfl
  | some name =>
      simp only [Option.bind_eq_bind, Option.bind_some]
      cases hq : v.tree.qualifier u with
      | none =>
          dsimp only
          rw [seekingReceiver_eq hends]
          rfl
      | some q =>
          have hresolve : v.resolving n q = some (v.resolveWithin m q) := h _ (.receiver hq)
          have htype : v.typing n q = some (v.typeWithin m q) := h _ (.receiverType hq)
          simp only [hresolve, htype, Option.bind_some]
          split
          · rfl
          · cases v.resolveWithin m q with
            | none => rfl
            | some decl => cases decl <;> rfl

theorem settledAt_succ (h : ∀ q', v.Asks q q' → v.SettledAt n m q') :
    v.SettledAt (n + 1) (m + 1) q := by
  cases q with
  | resolve u => exact settledAt_resolve hends h
  | type u => exact settledAt_type h
  | declared u => exact settledAt_declared h
  | call u => exact settledAt_call hends h

end

/-! ### Where a query leads -/

def Silent (q : Query) : Prop := ∀ q', ¬v.Asks q q'

inductive Goes : Query → Query → Prop
  /-- It stays at the node and asks an easier question. -/
  | stays {q q' : Query} (hnode : q'.node = q.node) (hlevel : q'.level < q.level) : Goes q q'
  /-- It goes further down. -/
  | down {q q' : Query} (hbelow : q'.node ∈ v.tree.descendants q.node) (hne : q'.node ≠ q.node) :
      Goes q q'
  /-- It goes to a declaration, which answers at once. -/
  | aside {q q' : Query} (hkind : v.tree.kind q'.node = .field ∨ v.tree.kind q'.node = .parameter ∨
      v.tree.kind q'.node = .localVariable) (hsilent : v.Silent q') : Goes q q'
  /-- It goes back from a reference to the initializer of a variable that stands
  completely before the reference. -/
  | back {u d : NodeId} (hkind : v.tree.kind u = .reference)
      (hvariable : v.tree.kind d = .localVariable) (htype : v.tree.typeName d = some "var")
      (hbefore : ∀ m ∈ v.tree.descendants d, m < u) : Goes (.type u) (.declared d)

/-- The last index below the node of a query, the number of nodes below it, and the
level of the query. -/
def measure (q : Query) : (Nat ×ₗ Nat) ×ₗ Nat := toLex (v.tree.extent q.node, q.level)

section

variable {v} {u d c : NodeId} {q q' : Query} {n m : Nat} {y : String}

theorem silent_resolve (hkind : v.tree.kind d = .field ∨ v.tree.kind d = .parameter ∨
    v.tree.kind d = .localVariable) : v.Silent (.resolve d) := by
  intro q' h
  rcases hkind with hkind | hkind | hkind <;> cases h <;> simp_all [NodeKind.isTransparent]

theorem silent_declared_of_parameter (hkind : v.tree.kind d = .parameter) :
    v.Silent (.declared d) := by
  rintro _ ⟨⟩
  simp_all [Tree.initializer]

theorem silent_declared_of_typeName (htype : v.tree.typeName d ≠ some "var") :
    v.Silent (.declared d) := by
  rintro _ ⟨⟩
  contradiction

theorem Asks.lt_size (h : v.Asks q q') : q.node < v.tree.size := by
  by_contra hout
  have hnode := Tree.node_of_size_le (Nat.le_of_not_lt hout)
  cases h <;>
    simp_all [Query.node, Tree.kind, Tree.name, Tree.children, Tree.qualifier, Tree.typeName,
      NodeKind.isTransparent]

variable (hordered : v.tree.Ordered)

include hordered

theorem goes_child (hc : c ∈ v.tree.children q.node) (hnode : q'.node = c) : v.Goes q q' := by
  refine .down ?_ (hnode ▸ Nat.ne_of_gt (hordered.below_of_mem_children hc).1)
  rw [hnode]
  exact hordered.mem_descendants_of_child hc hordered.self_mem_descendants

/-- The type of a variable is written with it, or found in an initializer that is over
before the variable is used. -/
theorem goes_variable (hkind : v.tree.kind u = .reference)
    (hd : v.tree.resolveLocal y u = some d)
    (hvariable : v.tree.kind d = .localVariable ∨ v.tree.kind d = .parameter) :
    v.Goes (.type u) (.declared d) := by
  rcases hvariable with hvariable | hparameter
  · by_cases htype : v.tree.typeName d = some "var"
    · refine .back hkind hvariable htype fun m hm => ?_
      obtain ⟨hlt, hout⟩ := hordered.before_of_resolveLocal hd hvariable
      have hsize : d < v.tree.size := Tree.lt_size_of_kind (by rw [hvariable]; nofun)
      have hend := ((hordered.mem_descendants_iff_le hsize).mp hm).2
      refine Nat.lt_of_le_of_lt hend (Nat.lt_of_not_le fun hle => hout ?_)
      exact hordered.mem_selfAndAncestors_of_mem_descendants
        ((hordered.mem_descendants_iff_le hsize).mpr ⟨Nat.le_of_lt hlt, hle⟩)
    · exact .aside (.inr (.inr hvariable)) (silent_declared_of_typeName htype)
  · exact .aside (.inr (.inl hparameter)) (silent_declared_of_parameter hparameter)

theorem Asks.goes
    (hqualifier : ∀ n q, v.tree.qualifier n = some q → q ∈ v.tree.children n)
    (h : v.Asks q q') : v.Goes q q' := by
  cases h with
  | declaration hkind hname hd =>
      have hdeclaration := kind_of_resolveLocal hd
      exact .aside hdeclaration (silent_resolve hdeclaration)
  | owner hkind hq | ownerType hkind hq => exact goes_child hordered (hqualifier _ _ hq) rfl
  | receiver hq | receiverType hq => exact goes_child hordered (hqualifier _ _ hq) rfl
  | method hkind | meaning hkind | result hkind => exact .stays rfl (by simp [Query.level])
  | @inside u hkind hne =>
      exact .down (hordered.mem_descendants_of_passes (hordered.passes_skipParentheses u)) hne
  | variableType hkind hname hd hvariable => exact goes_variable hordered hkind hd hvariable
  | operand hc => exact goes_child hordered hc rfl
  | initial htype hi => exact goes_child hordered (Tree.mem_children_of_initializer hi) rfl

/-- A query that goes on to another node, other than a declaration that answers at
once, goes to one that is finished before. -/
theorem Goes.finishes (h : v.Goes q q') (hq : q.node < v.tree.size) :
    (q'.node = q.node ∧ q'.level < q.level) ∨ v.Silent q' ∨
      (q'.node < v.tree.size ∧ v.tree.Finishes q'.node q.node) := by
  cases h with
  | stays hnode hlevel => exact .inl ⟨hnode, hlevel⟩
  | down hbelow hne =>
      obtain ⟨hsize, hmem⟩ := (hordered.mem_descendants hq).mp hbelow
      exact .inr (.inr ⟨hsize, .inl ((List.mem_cons.mp hmem).resolve_left hne.symm)⟩)
  | aside _ hsilent => exact .inr (.inl hsilent)
  | @back u d _ hvariable _ hbefore =>
      have hsize : d < v.tree.size := Tree.lt_size_of_kind (by rw [hvariable]; nofun)
      refine .inr (.inr ⟨hsize, .inr ⟨hbefore d hordered.self_mem_descendants, fun hmem => ?_⟩⟩)
      exact Nat.lt_irrefl u (hbefore u ((hordered.mem_descendants hsize).mpr ⟨hq, hmem⟩))

theorem Goes.measure_lt (h : v.Goes q q') (hq : q.node < v.tree.size) :
    v.Silent q' ∨ v.measure q' < v.measure q := by
  rw [measure, measure, Prod.Lex.toLex_lt_toLex]
  rcases h.finishes hordered hq with ⟨hnode, hlevel⟩ | hsilent | ⟨hsize, hfinishes⟩
  · exact .inr (.inr ⟨congrArg v.tree.extent hnode, hlevel⟩)
  · exact .inl hsilent
  · exact .inr (.inl (hordered.extent_lt hsize hq hfinishes))

/-! ### The whole search -/

variable (hends : ∀ name, v.symbols.EndsOutward name)
  (hqualifier : ∀ n q, v.tree.qualifier n = some q → q ∈ v.tree.children n)

include hends

omit hordered in
theorem settledAt_of_silent (hsilent : v.Silent q) (hn : 1 ≤ n) (hm : 1 ≤ m) :
    v.SettledAt n m q := by
  obtain ⟨n, rfl⟩ := Nat.exists_eq_add_of_le' hn
  obtain ⟨m, rfl⟩ := Nat.exists_eq_add_of_le' hm
  exact settledAt_succ hends fun q' hasks => absurd hasks (hsilent q')

include hqualifier

/-- As many calls are enough as a query makes for its own node, and four for each node
that is finished before. -/
theorem settledAt_rank (hn : 4 * v.tree.rank q.node + q.level ≤ n)
    (hm : 4 * v.tree.rank q.node + q.level ≤ m) : v.SettledAt n m q := by
  have hlow := q.two_le_level
  induction n generalizing q m with
  | zero => omega
  | succ n ih =>
      obtain ⟨m, rfl⟩ : ∃ k, m = k + 1 := ⟨m - 1, by omega⟩
      refine settledAt_succ hends fun q' hasks => ?_
      have hq := hasks.lt_size
      rcases (hasks.goes hordered hqualifier).finishes hordered hq with
        ⟨hnode, hlt⟩ | hsilent | ⟨hsize, hfinishes⟩
      · exact ih (by rw [hnode]; omega) (by rw [hnode]; omega) q'.two_le_level
      · exact settledAt_of_silent hends hsilent (by omega) (by omega)
      · have hrank := hordered.rank_lt hsize hq hfinishes
        have hhigh := q'.level_le_four
        exact ih (by omega) (by omega) q'.two_le_level

theorem settledAt_bound (q : Query) (hn : v.bound ≤ n) : v.SettledAt n v.bound q := by
  have hrank := Tree.rank_le_size (t := v.tree) (u := q.node)
  have hlevel := q.level_le_four
  have henough : 4 * v.tree.rank q.node + q.level ≤ v.bound := by
    rw [bound]
    omega
  exact settledAt_rank hordered hends hqualifier (Nat.le_trans henough hn) henough

end

/-- In a tree made with a builder whose qualifiers are children, and against symbols
where all ways outward come to an end, resolution comes to an end at every node, with
the results of `resolve`, `typeOf` and `resolveCall`: the bound of the view on the calls
is enough, and so is every greater one. What a query asks leads to an easier question,
further down, to a declaration that answers at once, or back to a variable that ends
before; except for answers at once, the measure decreases. And nothing else is asked: a
query is settled with one call more than the queries that it asks. -/
theorem resolution_ends {b : Builder} (hb : b.Made) (htree : v.tree = b.build)
    (hqualifier : ∀ n q, v.tree.qualifier n = some q → q ∈ v.tree.children n)
    (hends : ∀ name, v.symbols.EndsOutward name) :
    (∀ q q', v.Asks q q' → v.Goes q q' ∧ (v.Silent q' ∨ v.measure q' < v.measure q)) ∧
    (∀ n m q, (∀ q', v.Asks q q' → v.SettledAt n m q') → v.SettledAt (n + 1) (m + 1) q) ∧
    ∀ n id, v.bound ≤ n → v.resolving n id = some (v.resolve id) ∧
      v.typing n id = some (v.typeOf id) ∧
      v.declaring n id = some (v.declaredWithin v.bound id) ∧
      v.calling n id = some (v.resolveCall id) := by
  have hordered : v.tree.Ordered := htree ▸ hb.ordered
  refine ⟨fun q q' hasks => ?_, fun n m q => settledAt_succ hends, fun n id hn => ?_⟩
  · have hgoes := hasks.goes hordered hqualifier
    exact ⟨hgoes, hgoes.measure_lt hordered hasks.lt_size⟩
  · have hsettled := fun q => settledAt_bound hordered hends hqualifier q hn
    exact ⟨hsettled (.resolve id), hsettled (.type id), hsettled (.declared id),
      hsettled (.call id)⟩

/-! A variable whose type is found by way of another one. -/

/-- `class A { void m() { var a = 1; var b = a; b.length } }` -/
def chainedTree : Builder :=
  (Builder.start ⟨"A.java"⟩ .source .javaFile none {}).perform
    [.enter { kind := .classDecl, name := some "A" },
      .enter { kind := .method, name := some "m" },
      .enter { kind := .block },
      .enter { kind := .localVariable, name := some "a", typeName := some "var" },
      .leaf { kind := .literal, literal := some (.int 1) },
      .leave,
      .enter { kind := .localVariable, name := some "b", typeName := some "var" },
      .leaf { kind := .reference, name := some "a" },
      .leave,
      .enter { kind := .select, name := some "length" },
      .leaf { kind := .reference, name := some "b" },
      .setQualifier 8 9]

def chainedView : View where
  tree := chainedTree.build
  symbols := .ofContributions [.unit chainedTree.build]

theorem chainedTree_made : chainedTree.Made := (Builder.Made.start ..).perform _

theorem chainedView_qualifier (n q : NodeId) (h : chainedView.tree.qualifier n = some q) :
    q ∈ chainedView.tree.children n := by
  have hinside : ∀ n < 10, ∀ q ∈ chainedView.tree.qualifier n, q ∈ chainedView.tree.children n := by
    decide +kernel
  refine hinside n (Nat.lt_of_not_le fun hle => ?_) q h
  have hsize : chainedView.tree.size = 10 := by decide +kernel
  rw [Tree.qualifier, Tree.node_of_size_le (hsize ▸ hle)] at h
  cases h

theorem chainedView_endsOutward (name : String) : chainedView.symbols.EndsOutward name :=
  SymbolTable.endsOutward_ofContributions_iff.mpr fun _ hc => by cases List.mem_singleton.mp hc

theorem resolution_ends_chained :
    chainedView.typing chainedView.bound 9 = some (some "int") := by
  obtain ⟨-, -, hends⟩ := resolution_ends chainedView chainedTree_made rfl chainedView_qualifier
    chainedView_endsOutward
  have htype : chainedView.typeOf 9 = some "int" := by decide +kernel
  rw [(hends chainedView.bound 9 (Nat.le_refl _)).2.1, htype]

end View

end LintEngine
