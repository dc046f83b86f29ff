import LintEngine.Tree.Basic

/-!
Building a tree in pre-order. `enter` adds a node below the current one and
descends into it, `leaf` adds a node without children, and `leave` returns to
the parent. The root is there from the start and is never left.

`LineIndex` turns byte offsets into lines and columns when the tree is
finished.
-/

namespace LintEngine

/-- The byte offsets at which the lines of a text start. -/
structure LineIndex where
  starts : List Nat

namespace LineIndex

/-- The offsets just after the newlines of a text that begins at `offset`. -/
def after : Nat → List Char → List Nat
  | _, [] => []
  | offset, c :: cs =>
    let next := offset + c.utf8Size
    if c == '\n' then next :: after next cs else after next cs

def ofText (text : String) : LineIndex := ⟨0 :: after 0 text.toList⟩

/-- Line and column of an offset, both counted from 1. -/
def position (index : LineIndex) (offset : Nat) : Nat × Nat :=
  let upTo := index.starts.takeWhile (· ≤ offset)
  (max 1 upTo.length, offset - upTo.getLastD 0 + 1)

end LineIndex

structure Builder where
  file : Path
  phase : Phase
  scope : Scope
  source : Option String
  imports : Imports
  nodes : Array Node
  /-- The open nodes, innermost first; the root is not among them. -/
  opened : List NodeId

namespace Builder

/-- The kind of the root node. -/
def rootKind (phase : Phase) : NodeKind := if phase.hasCode then .file else .document

/-- A tree of one node. The root spans the source. -/
def start (file : Path) (phase : Phase) (scope : Scope) (source : Option String)
    (imports : Imports) : Builder where
  file := file
  phase := phase
  scope := scope
  source := source
  imports := imports
  nodes := #[{ kind := rootKind phase, stop := (source.map String.utf8ByteSize).getD 0 }]
  opened := []

/-- The node that receives children. -/
def current (b : Builder) : NodeId := b.opened.headD 0

/-- The index of the node that is added next. -/
def next (b : Builder) : NodeId := b.nodes.size

/-- Adds a node below the current one. -/
def leaf (b : Builder) (p : Payload) : Builder :=
  let id := b.next
  let nodes := b.nodes.modify b.current fun n => { n with children := n.children ++ [id] }
  { b with nodes := nodes.push { toPayload := p, parent := some b.current } }

/-- Adds a node below the current one and descends into it. -/
def enter (b : Builder) (p : Payload) : Builder :=
  { b.leaf p with opened := b.next :: b.opened }

/-- Returns to the parent; at the root nothing happens. -/
def leave (b : Builder) : Builder := { b with opened := b.opened.tail }

/-- Marks a child as the receiver or qualifier of its node. -/
def setQualifier (b : Builder) (id child : NodeId) : Builder :=
  { b with nodes := b.nodes.modify id fun n => { n with qualifier := some child } }

/-- Adds a node with what `inner` adds below it. -/
def within (b : Builder) (p : Payload) (inner : Builder → Builder) : Builder :=
  (inner (b.enter p)).leave

/-- The position of a finished node: computed from the source where it is not
known, and never 0 without a source. -/
def placed (index : Option LineIndex) (n : Node) : Node :=
  match index with
  | some index =>
    if n.line = 0 then
      let (line, column) := index.position n.start
      { n with line, column }
    else n
  | none => { n with line := max n.line 1, column := max n.column 1 }

/-- The finished tree. -/
def build (b : Builder) : Tree where
  file := b.file
  phase := b.phase
  scope := b.scope
  source := b.source
  imports := b.imports
  nodes := b.nodes.map (placed (b.source.map LineIndex.ofText))

end Builder

end LintEngine
