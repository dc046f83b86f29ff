import LintEngine.Symbols.TypeName

/-!
The symbol table: every known class under its qualified name, with the
questions that go through the type hierarchy.

A supertype link may lead to an unknown class or back to a class already
seen. `hierarchy` therefore walks breadth first with a list of visited names,
and its step count is bounded by the number of links in the table. A link to the
class around a class is followed without such a list, so `askOutward` need not
come to an end.
-/

namespace LintEngine

structure SymbolTable where
  /-- Classes with pairwise different names. -/
  classes : List ClassSymbol := []
deriving Inhabited

namespace SymbolTable

variable (s : SymbolTable)

def class? (name : String) : Option ClassSymbol := s.classes.find? (·.name == name)

def isKnown (name : String) : Bool := s.classes.any (·.name == name)

/-- Qualifies a type name as seen from a class. -/
def qualify (ctx : Imports) (enclosing : Option String) (name : String) : Option String :=
  TypeName.qualify s.isKnown ctx enclosing name

/-! ### Building -/

/-- Qualifies every type and annotation name in a class. -/
def qualifyClass (known : String → Bool) (c : ClassSymbol) : ClassSymbol :=
  let q := fun name => (TypeName.qualify known c.imports (some c.name) name).getD (TypeName.strip name)
  let annotated := List.map fun (a : Annotation) => { a with name := q a.name }
  -- the varargs marker decides how many arguments are accepted, so it stays
  let parameterType := fun name => if Text.endsWith "..." name then q name ++ "..." else q name
  { c with
    superclass := c.superclass.map q
    interfaces := c.interfaces.map q
    annotations := annotated c.annotations
    fields := c.fields.map fun f =>
      { f with typeName := f.typeName.map q, annotations := annotated f.annotations }
    methods := c.methods.map fun m =>
      { m with
        returnType := m.returnType.map q
        annotations := annotated m.annotations
        parameters := m.parameters.map fun p =>
          { p with typeName := p.typeName.map parameterType, annotations := annotated p.annotations } } }

/-- Keeps the first class of every name. -/
def keepFirst : List ClassSymbol → List ClassSymbol
  | [] => []
  | c :: cs => c :: (keepFirst cs).filter (·.name != c.name)

/-- The table of the given classes, with all names in them qualified. -/
def ofClasses (classes : List ClassSymbol) : SymbolTable :=
  let known := fun name => classes.any (·.name == name)
  ⟨(keepFirst classes).map (qualifyClass known)⟩

/-! ### Hierarchy -/

/-- Breadth-first search; `seen` holds the names already taken from the
queue. -/
def explore : Nat → List String → List String → List ClassSymbol
  | 0, _, _ => []
  | _ + 1, _, [] => []
  | n + 1, seen, next :: queue =>
    if seen.contains next then explore n seen queue
    else match s.class? next with
      | none => explore n (next :: seen) queue
      | some c => c :: explore n (next :: seen) (queue ++ c.supertypes)

/-- The number of names that a search can ever put into its queue. -/
def linkCount : Nat := s.classes.foldr (fun c n => c.supertypes.length + n) 1

/-- The class and its supertypes, breadth first, each once. -/
def hierarchy (name : String) : List ClassSymbol := s.explore s.linkCount [] [name]

/-- A field declared in a class or inherited, with the declaring class. -/
def findField (owner name : String) : Option (ClassSymbol × FieldSymbol) :=
  (s.hierarchy owner).findSome? fun c => (c.field? name).map (c, ·)

/-- The method that a call with a number of arguments binds to. -/
def findMethod (owner name : String) (arity : Nat) : Option (ClassSymbol × MethodSymbol) :=
  (s.hierarchy owner).findSome? fun c => (c.method? name arity).map (c, ·)

/-- The methods of proper supertypes with the same name and arity. -/
def overridden (owner name : String) (arity : Nat) : List MethodSymbol :=
  ((s.hierarchy owner).tail.flatMap (·.methods)).filter fun m =>
    m.name == name && m.arity == arity && !m.isConstructor

/-- The names reached from a class by following superclass links at least
once. -/
def superclasses : Nat → String → List String
  | 0, _ => []
  | n + 1, name =>
    match (s.class? name).bind (·.superclass) with
    | some next => next :: superclasses n next
    | none => []

/-- Whether a type is, or extends, a class. `strict` excludes equality. -/
def extendsClass (typeName qualified : String) (strict : Bool) : Bool :=
  let start := TypeName.strip typeName
  (!strict && start == qualified) ||
    (s.superclasses (s.classes.length + 1) start).contains qualified

/-- Whether a type is, or implements, an interface anywhere in its hierarchy.
`strict` excludes equality. -/
def implementsInterface (typeName qualified : String) (strict : Bool) : Bool :=
  let start := TypeName.strip typeName
  let types := s.hierarchy start
  (!strict && start == qualified) || types.tail.any (·.name == qualified) ||
    types.any fun c => c.interfaces.contains qualified

/-- A class and the classes around it, innermost first. -/
def outerChain : Nat → String → List String
  | 0, _ => []
  | n + 1, name =>
    name :: match (s.class? name).bind (·.outer) with
      | some outer => outerChain n outer
      | none => []

/-- The classes whose members a name can refer to without a qualifier. -/
def lexicalScopes (name : Option String) : List String :=
  match name with
  | some name => s.outerChain (s.classes.length + 1) name
  | none => []

/-- The class around a class. -/
def outer? (name : String) : Option String := (s.class? name).bind (·.outer)

/-- Asks a class, and then the classes around it from the inside out, until one of them
has an answer. Where the links outward run in a circle, a search that finds no answer
there goes on for ever; its result is `none`. -/
def askOutward (s : SymbolTable) {α : Type} (ask : String → Option α) (name : String) :
    Option (Option α) :=
  match ask name with
  | some a => some (some a)
  | none =>
    match s.outer? name with
    | some outer => s |>.askOutward ask outer
    | none => some none
partial_fixpoint

section

variable {α : Type} (ask : String → Option α)

/-- The same search, with so many steps taken one by one before it is left to
itself. -/
def askFrom : Nat → String → Option α
  | 0, name => (s.askOutward ask name).join
  | n + 1, name =>
    match ask name with
    | some a => some a
    | none =>
      match s.outer? name with
      | some outer => askFrom n outer
      | none => none

/-- The first answer among the classes whose members a name can refer to without a
qualifier. A search that ends takes no more steps than there are classes, so it is
over when the steps are. -/
def askScopes (name : Option String) : Option α :=
  name.bind (s.askFrom ask (s.classes.length + 1))

end

/-! ### Meta-annotations -/

def isAnnotationType (name : String) : Bool :=
  (s.class? name).any (·.kind == .annotationType)

/-- What a search for meta-annotations has found so far. -/
structure Merge where
  visited : List String := []
  found : List Annotation := []

/-- Adds an annotation unless one of its name is there. -/
def Merge.add (m : Merge) (a : Annotation) : Merge :=
  if m.found.any (·.name == a.name) then m
  else { m with found := m.found ++ [{ a with node := none }] }

/-- Collects the annotations on an annotation type and, depth first, on the
types of those annotations. -/
def collect : Nat → Merge → String → Merge
  | 0, m, _ => m
  | n + 1, m, type =>
    if m.visited.contains type then m
    else
      let m := { m with visited := type :: m.visited }
      match s.class? type with
      | none => m
      | some c =>
        if c.kind == .annotationType then
          c.annotations.foldl (fun m a => collect n (m.add a) a.name) m
        else m

/-- The meta-annotations of an annotation type, merged transitively. -/
def metaAnnotations (type : String) : List Annotation :=
  (s.collect (s.classes.length + 1) {} type).found

/-- Answers kept from earlier merges. -/
structure Memo where
  entries : List (String × List Annotation) := []
  /-- The number of merges computed. -/
  computed : Nat := 0
deriving Inhabited

/-- The merged meta-annotations of a type, computed at most once. -/
def mergedAnnotations (memo : Memo) (type : String) : List Annotation × Memo :=
  match memo.entries.lookup type with
  | some hit => (hit, memo)
  | none =>
    let merged := s.metaAnnotations type
    (merged, { entries := (type, merged) :: memo.entries, computed := memo.computed + 1 })

end SymbolTable

end LintEngine
