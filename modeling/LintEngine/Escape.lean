import LintEngine.View.Resolve

/-!
Following a resource through a method. From its allocation a value is watched
until it is cleaned up, until it escapes to a place that the method does not
control, or until the method ends; in the last case it has leaked.

The value is known by the local variables that hold it. A variable that was
assigned the value keeps counting as a holder even if it is assigned
something else later, so that doubtful cases end as escapes and not as leaks.
-/

namespace LintEngine

namespace Escape

/-- What becomes of a value. -/
inductive Outcome where
  | cleanedUp
  | escaped
  /-- Neither cleaned up nor escaped. -/
  | leaked
deriving DecidableEq, Repr, Inhabited

def Outcome.name : Outcome → String
  | .cleanedUp => "CleanedUp"
  | .escaped => "Escaped"
  | .leaked => "Leaked"

/-- What one mention of a holder does to the value. -/
inductive Use where
  | ends (outcome : Outcome)
  /-- Another local variable holds the value from here on. -/
  | copies (holder : NodeId)
  | nothing
deriving DecidableEq, Repr, Inhabited

/-- The rules for one kind of resource. -/
structure Tracker where
  view : View
  /-- Calls on the value that clean it up. -/
  isCleanup : MethodRef → Bool
  /-- Calls that may be given the value without keeping it. -/
  isHarmless : MethodRef → Bool := fun _ => false

namespace Tracker

variable (k : Tracker)

/-- Whether a value is kept when it is passed to a call. -/
def callKeeps (call : NodeId) : Bool :=
  !(k.view.resolveCall call).any k.isHarmless

def callCleans (call : NodeId) : Bool := (k.view.resolveCall call).any k.isCleanup

/-- A variable declared in the head of a `try` is closed at its end. -/
def isResource (variable_ : NodeId) : Bool :=
  (k.view.tree.parent variable_).any fun p => k.view.tree.kind p == .tryStatement

/-- What the node around a mention does with the value. -/
def use (mention : NodeId) : Use :=
  let t := k.view.tree
  match t.skipParenthesesUp mention with
  | none => .nothing
  | some parent =>
    let isMention := fun c => t.skipParentheses c == mention
    let direct := (t.children parent).any isMention
    match t.kind parent with
    | .call =>
      if (t.qualifier parent).any isMention then
        if k.callCleans parent then .ends .cleanedUp else .nothing
      else if direct && k.callKeeps parent then .ends .escaped
      else .nothing
    | .new | .ret | .field | .arrayInit => if direct then .ends .escaped else .nothing
    | .assignment =>
      if ((t.children parent)[1]?).any isMention then
        match (t.children parent).head?.bind k.view.resolve with
        | some (.localNode holder) => .copies holder
        | _ => .ends .escaped
      else .nothing
    | .localVariable =>
      if !direct then .nothing
      else if k.isResource parent then .ends .cleanedUp
      else .copies parent
    | _ => .nothing

/-- Reads mentions in order. Only those that resolve to a holder count, and
the first that ends the search decides. -/
def follow : List NodeId → List NodeId → Outcome
  | _, [] => .leaked
  | holders, m :: rest =>
    let declared := (k.view.tree.name m).bind fun name => k.view.tree.resolveLocal name m
    if declared.any holders.contains then
      match k.use m with
      | .ends o => o
      | .copies holder => follow (holder :: holders) rest
      | .nothing => follow holders rest
    else follow holders rest

/-- The part of the tree in which a variable is visible. -/
def scopeOf (variable_ : NodeId) : NodeId :=
  let t := k.view.tree
  (t.enclosingMethod variable_ <|> t.parent variable_).getD Tree.root

/-- The references that stand after a declaration in its scope. -/
def mentionsAfter (variable_ : NodeId) : List NodeId :=
  let t := k.view.tree
  (t.descendants (k.scopeOf variable_)).filter fun n => variable_ < n && t.kind n == .reference

/-- What becomes of the value of a local variable. -/
def track (variable_ : NodeId) : Outcome := k.follow [variable_] (k.mentionsAfter variable_)

/-- What becomes of the value of an expression. -/
def trackValue (e : NodeId) : Outcome :=
  let t := k.view.tree
  match t.parent e with
  | none => .leaked
  | some p =>
    let onward := if _ : p < e then trackValue p else .leaked
    match t.kind p with
    | .parenthesized | .cast => onward
    | .conditional => if (t.children p).head? != some e then onward else .leaked
    | .call =>
      if t.qualifier p == some e then if k.callCleans p then .cleanedUp else .leaked
      else if k.callKeeps p then .escaped
      else .leaked
    | .new | .ret | .lambda | .arrayInit | .field => .escaped
    | .assignment =>
      match (t.children p).head? with
      | none => .escaped
      | some target =>
        if target == e then .leaked
        else match k.view.resolve target with
          | some (.localNode holder) => k.track holder
          | _ => .escaped
    | .localVariable => if k.isResource p then .cleanedUp else k.track p
    | _ => .leaked
termination_by e

end Tracker

end Escape

end LintEngine
