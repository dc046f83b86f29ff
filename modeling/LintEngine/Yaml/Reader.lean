import LintEngine.Text.Basic
import LintEngine.Yaml.Value

/-!
Reading a YAML document: block and flow collections, plain, quoted and block
scalars, anchors, comments and document marks.

In block style the column of a token decides to which collection it belongs.
The cursor therefore knows its column, and whether only blanks precede it in
its line: a key or a dash can stand only there, or right after a dash.
-/

namespace LintEngine.Yaml

structure Cursor where
  rest : List Char
  column : Nat := 0
  /-- Whether only blanks stand before the cursor in its line. -/
  fresh : Bool := true
  /-- What the anchors so far name, the latest first. -/
  anchors : List (String × Value) := []
deriving Inhabited

/-- A reader that consumes characters from the front, or fails. -/
abbrev Read := StateT Cursor Option

namespace Read

def require (condition : Bool) : Read Unit := if condition then pure () else failure

def peek? : Read (Option Char) := return (← get).rest.head?

def isGap (c : Char) : Bool := c == ' ' || c == '\t'

/-- Whether a word ends here. -/
def endsWord : List Char → Bool
  | [] => true
  | c :: _ => isGap c || c == '\n'

/-- Takes one character. -/
def advance : Read Char := do
  let s ← get
  match s.rest with
  | [] => failure
  | '\n' :: rest =>
    set { s with rest, column := 0, fresh := true }
    return '\n'
  | c :: rest =>
    set { s with rest, column := s.column + 1, fresh := s.fresh && isGap c }
    return c

/-- Takes so many characters. -/
def skip : Nat → Read Unit
  | 0 => pure ()
  | n + 1 => do
    let _ ← advance
    skip n

/-- Takes the blanks of a line. At the start of a line only spaces count,
unless a flow collection is open. -/
def blanks (flow : Bool) : Read Unit := do
  let s ← get
  skip (s.rest.takeWhile fun c => c == ' ' || (c == '\t' && (flow || !s.fresh))).length

/-- Takes blanks, comments and line ends. -/
def gap (flow : Bool) : Read Unit := do
  go ((← get).rest.length + 1)
where
  go : Nat → Read Unit
    | 0 => pure ()
    | n + 1 => do
      blanks flow
      if (← peek?) == some '#' then skip ((← get).rest.takeWhile (· != '\n')).length
      if (← peek?) == some '\n' then
        let _ ← advance
        go n

/-- Whether a mark between documents stands here. -/
def atMark (mark : String) : Read Bool := do
  let s ← get
  return s.column == 0 && mark.toList.isPrefixOf s.rest && endsWord (s.rest.drop 3)

/-- Whether the document ends here. -/
def atEnd : Read Bool := do
  return (← get).rest.isEmpty || (← atMark "---") || (← atMark "...")

/-- Whether an item of a block sequence starts here. -/
def atDash : Read Bool := do
  match (← get).rest with
  | '-' :: rest => return endsWord rest
  | _ => return false

/-! ### Scalars -/

def isFlowMark (c : Char) : Bool := ",[]\x7b\x7d".toList.contains c

/-- The text that line ends within a scalar stand for: a single one is a
space, and of several all but the first are kept. -/
def folded (lineEnds : Nat) : List Char :=
  if lineEnds ≤ 1 then [' '] else List.replicate (lineEnds - 1) '\n'

/-- Takes line ends and the blanks around them, and counts the line ends. -/
def lineEnds : Nat → Read Nat
  | 0 => pure 0
  | n + 1 => do
    skip ((← get).rest.takeWhile isGap).length
    if (← peek?) == some '\n' then
      let _ ← advance
      return (← lineEnds n) + 1
    else return 0

/-- The part of a plain scalar in one line. -/
def plainPart (flow afterGap : Bool) : List Char → List Char
  | [] => []
  | c :: cs =>
    if c == '\n' || (c == ':' && (endsWord cs || (flow && cs.head?.any isFlowMark))) ||
        (flow && isFlowMark c) || (afterGap && c == '#') then []
    else c :: plainPart flow (isGap c) cs

/-- Whether a plain scalar can start with these characters. -/
def startsPlain (flow : Bool) : List Char → Bool
  | [] => false
  | c :: rest =>
    if c == '-' then !endsWord rest
    else if c == '?' || c == ':' then !flow && !endsWord rest
    else !isGap c && c != '\n' && !("#&*!|>'\"%@\x60" ++ ",[]\x7b\x7d").toList.contains c

def trimGaps (cs : List Char) : List Char := Text.dropEndWhile isGap cs

/-- The further lines of a plain scalar. In block style they stand at column
`min` or to the right of it. -/
def plainLines (flow : Bool) (min : Nat) : Nat → Read (List Char)
  | 0 => pure []
  | n + 1 => do
    let start ← get
    let ends ← lineEnds start.rest.length
    let s ← get
    let part := plainPart flow true s.rest
    if ends == 0 || (← atEnd) || (!flow && s.column < min) || part.isEmpty then
      set start
      return []
    else
      skip part.length
      return folded ends ++ trimGaps part ++ (← plainLines flow min n)

def plain (flow : Bool) (min : Nat) : Read Value := do
  let s ← get
  require (startsPlain flow s.rest)
  let part := plainPart flow false s.rest
  skip part.length
  let more ← plainLines flow min s.rest.length
  return .scalar (String.ofList (trimGaps part ++ more)) true

/-- A character given by its number in hexadecimal digits. -/
def codePoint (digits : Nat) : Read (List Char) := do
  let cs := (← get).rest.take digits
  require (cs.length == digits)
  skip digits
  match (Text.number? 16 cs).bind Text.charOf? with
  | some c => return [c]
  | none => failure

/-- What stands for a character after a backslash. -/
def escapes : List (Char × Nat) :=
  [('0', 0), ('a', 7), ('b', 8), ('t', 9), ('\t', 9), ('n', 10), ('v', 11), ('f', 12), ('r', 13),
   ('e', 27), (' ', 32), ('"', 34), ('/', 47), ('\\', 92), ('N', 0x85), ('_', 0xA0),
   ('L', 0x2028), ('P', 0x2029)]

def escape : Read (List Char) := do
  match ← advance with
  | 'x' => codePoint 2
  | 'u' => codePoint 4
  | 'U' => codePoint 8
  | '\n' =>
    skip ((← get).rest.takeWhile isGap).length
    return []
  | c => match escapes.lookup c with
    | some n => return [Char.ofNat n]
    | none => failure

/-- The rest of a quoted scalar, after its opening quote. -/
def quotedRest (quote : Char) : Nat → Read (List Char)
  | 0 => failure
  | n + 1 => do
    let start ← get
    let ends ← lineEnds start.rest.length
    if ends > 0 then return folded ends ++ (← quotedRest quote n)
    set start
    match ← advance with
    | '\\' =>
      if quote == '"' then return (← escape) ++ (← quotedRest quote n)
      else return '\\' :: (← quotedRest quote n)
    | c =>
      if c == quote then
        if quote == '\'' && (← peek?) == some '\'' then
          let _ ← advance
          return '\'' :: (← quotedRest quote n)
        else return []
      else return c :: (← quotedRest quote n)

def quoted (quote : Char) : Read Value := do
  let _ ← advance
  return .scalar (String.ofList (← quotedRest quote (← get).rest.length)) false

/-! ### Block scalars -/

/-- Takes the spaces at the start of a line, at most up to a column. -/
def indentation (limit : Option Nat) : Read Unit := do
  let s ← get
  let spaces := (s.rest.takeWhile (· == ' ')).length
  skip (match limit with
    | some column => Nat.min spaces (column - s.column)
    | none => spaces)

/-- Takes empty lines and the indentation of the line after them. Gives the
number of the empty lines and the widest indentation. -/
def emptyLines (limit : Option Nat) : Nat → Read (Nat × Nat)
  | 0 => pure (0, 0)
  | n + 1 => do
    indentation limit
    let s ← get
    require (s.rest.head? != some '\t' || limit.any (· ≤ s.column))
    if s.rest.head? == some '\n' then
      let _ ← advance
      let (count, widest) ← emptyLines limit n
      return (count + 1, Nat.max s.column widest)
    else return (0, s.column)

/-- How the lines of a block scalar are joined. -/
structure BlockStyle where
  /-- Whether a line end between two lines of text becomes a space. -/
  folds : Bool
  /-- The column of the text. -/
  indent : Nat

/-- What the end of the line before the current one and the empty lines since
then stand for. -/
def BlockStyle.joint (style : BlockStyle) (lineEnd : Bool) (empty : Nat) (text : Bool) :
    List Char :=
  let kept := List.replicate empty '\n'
  if !lineEnd then kept
  else if !(style.folds && text) then '\n' :: kept
  else if empty == 0 then [' ']
  else kept

/-- The lines of a block scalar. `lineEnd` and `empty` count what has been
taken since the last line of text, and `text` says that it did not start with
a blank. Gives the text, and what has been taken after it. -/
def blockLines (style : BlockStyle) (lineEnd : Bool) (empty : Nat) (text : Bool) :
    Nat → Read (List Char × Bool × Nat)
  | 0 => pure ([], lineEnd, empty)
  | n + 1 => do
    let s ← get
    if s.column != style.indent || s.rest.isEmpty then return ([], lineEnd, empty)
    let here := !s.rest.head?.any isGap
    let line := s.rest.takeWhile (· != '\n')
    skip line.length
    let ended := (← peek?) == some '\n'
    if ended then let _ ← advance
    let (count, _) ← emptyLines (some style.indent) s.rest.length
    let (more, after) ← blockLines style ended count here n
    return (style.joint lineEnd empty (text && here) ++ line ++ more, after)

/-- A block scalar whose text stands at column `min` or to the right of it. A
digit gives its indentation, a sign says which line ends at its end are
kept. -/
def blockScalar (min : Nat) : Read Value := do
  let folds := (← advance) == '>'
  let marks := (← get).rest.takeWhile fun c => c.isDigit || c == '+' || c == '-'
  let (digits, signs) := (marks.filter Char.isDigit, marks.filter fun c => !c.isDigit)
  require (digits.length ≤ 1 && signs.length ≤ 1 && digits != ['0'])
  skip marks.length
  blanks true
  if (← peek?) == some '#' then skip ((← get).rest.takeWhile (· != '\n')).length
  if !(← get).rest.isEmpty then require ((← advance) == '\n')
  let length := (← get).rest.length
  let given := digits.head?.map fun d => min - 1 + (d.toNat - '0'.toNat)
  let (empty, widest) ← emptyLines given (length + 1)
  let indent := given.getD (Nat.max widest (Nat.max min 1))
  let (text, lineEnd, after) ← blockLines { folds, indent } false empty false (length + 1)
  let ending :=
    if signs == ['-'] then []
    else (if lineEnd then ['\n'] else []) ++ (if signs == ['+'] then List.replicate after '\n' else [])
  return .scalar (String.ofList (text ++ ending)) false

/-! ### Anchors -/

def isNameChar (c : Char) : Bool := c.isAlphanum || c == '-' || c == '_'

/-- The name of an anchor, after its mark. -/
def anchorName : Read String := do
  let _ ← advance
  let name := (← get).rest.takeWhile isNameChar
  skip name.length
  let rest := (← get).rest
  require (!name.isEmpty && (endsWord rest || rest.head?.any "?:,]\x7d%@\x60".toList.contains))
  return String.ofList name

/-- The anchor and the tag in front of a node, in any order. Values have no
types of their own, so the tag is dropped. -/
def properties (flow : Bool) : Nat → Read (List String)
  | 0 => pure []
  | n + 1 => do
    match ← peek? with
    | some '&' =>
      let name ← anchorName
      blanks true
      return name :: (← properties flow n)
    | some '!' =>
      skip ((← get).rest.takeWhile fun c => !isGap c && c != '\n' && !(flow && isFlowMark c)).length
      blanks true
      properties flow n
    | _ => return []

/-- Remembers a value under the anchors in front of it. -/
def remember (names : List String) (v : Value) : Read Value := do
  modify fun s => { s with anchors := names.map (·, v) ++ s.anchors }
  return v

/-- The value that an anchor names. -/
def remembered : Read Value := do
  let name ← anchorName
  match (← get).anchors.lookup name with
  | some v => return v
  | none => failure

/-! ### Flow style -/

/-- Takes the colon after a key in flow style, if there is one. After a plain
key it ends a word. -/
def flowColon (key : Value) : Read Bool := do
  match (← get).rest, key with
  | ':' :: rest, .scalar _ true =>
    if endsWord rest then
      let _ ← advance
      return true
    else return false
  | ':' :: _, _ =>
    let _ ← advance
    return true
  | _, _ => return false

mutual

/-- A node in flow style, nested at most `n` deep. -/
def flowNode : Nat → Read Value
  | 0 => failure
  | n + 1 => do
    let names ← properties true 2
    gap true
    let v ← match ← peek? with
      | some '[' => do
        let _ ← advance
        pure (.sequence (← flowItems n))
      | some '\x7b' => do
        let _ ← advance
        pure (.mapping (← flowEntries n))
      | some '"' => quoted '"'
      | some '\'' => quoted '\''
      | some '*' => remembered
      | _ => plain true 0
    remember names v

/-- The items up to the closing bracket. A pair is a mapping of its own. -/
def flowItems : Nat → Read (List Value)
  | 0 => failure
  | n + 1 => do
    gap true
    if (← peek?) == some ']' then
      let _ ← advance
      return []
    let first ← flowNode n
    gap true
    let item ← if ← flowColon first then pure (.mapping [(first, ← flowValue n)]) else pure first
    gap true
    match ← peek? with
    | some ',' =>
      let _ ← advance
      return item :: (← flowItems n)
    | some ']' =>
      let _ ← advance
      return [item]
    | _ => failure

/-- The entries up to the closing brace. A key alone has no value. -/
def flowEntries : Nat → Read (List (Value × Value))
  | 0 => failure
  | n + 1 => do
    gap true
    if (← peek?) == some '\x7d' then
      let _ ← advance
      return []
    let key ← flowNode n
    gap true
    let value ← if ← flowColon key then flowValue n else pure .empty
    gap true
    match ← peek? with
    | some ',' =>
      let _ ← advance
      return (key, value) :: (← flowEntries n)
    | some '\x7d' =>
      let _ ← advance
      return [(key, value)]
    | _ => failure

/-- A value after a colon; it can be missing. -/
def flowValue : Nat → Read Value
  | 0 => failure
  | n + 1 => do
    gap true
    if (← peek?).any isFlowMark && !(← peek?).any fun c => c == '[' || c == '\x7b' then return .empty
    else flowNode n

end

/-! ### Block style -/

/-- A node that can be a key, and whether it spans several lines. -/
def inline (n min : Nat) : Read (Value × Bool) := do
  let before := (← get).rest
  let v ← match before.head? with
    | some '[' | some '\x7b' | some '"' | some '\'' | some '*' => flowNode n
    | _ => plain false min
  let after := (← get).rest
  return (v, (before.take (before.length - after.length)).contains '\n')

/-- Whether a colon that ends a key stands here, after blanks. -/
def atColon : Read Bool := do
  blanks true
  match (← get).rest with
  | ':' :: rest => return endsWord rest
  | _ => return false

mutual

/-- A node at column `min` or to the right of it; a sequence can start at
column `seqMin`. With `compact`, collections can start in the same line. -/
def blockNode (min seqMin : Nat) (compact : Bool) : Nat → Read Value
  | 0 => failure
  | n + 1 => do
    gap false
    let s ← get
    let keys := s.fresh || compact
    if ← atEnd then return .empty
    else if ← atDash then
      if s.fresh && s.column < seqMin then return .empty
      require keys
      return .sequence (← blockItems s.column n)
    else if s.fresh && s.column < min then return .empty
    else
      let names ← properties false 2
      let here ← get
      if here.column != s.column && (here.rest.head?.all fun c => c == '\n' || c == '#') then
        remember names (← blockNode min seqMin false n)
      else if here.rest.head?.any fun c => c == '|' || c == '>' then
        remember names (← blockScalar min)
      else
        let (v, spans) ← inline n min
        let v ← remember names v
        if ← atColon then
          require (keys && !spans)
          return .mapping (← blockPairs s.column v n)
        else return v

/-- The items of a block sequence, from a dash on. -/
def blockItems (column : Nat) : Nat → Read (List Value)
  | 0 => failure
  | n + 1 => do
    let _ ← advance
    let item ← blockNode (column + 1) (column + 1) true n
    gap false
    let s ← get
    if ← atEnd then return [item]
    require (s.fresh && s.column ≤ column)
    if s.column == column && (← atDash) then return item :: (← blockItems column n)
    else return [item]

/-- The entries of a block mapping, from the colon after a key on. -/
def blockPairs (column : Nat) (key : Value) : Nat → Read (List (Value × Value))
  | 0 => failure
  | n + 1 => do
    let _ ← advance
    let value ← blockNode (column + 1) column false n
    gap false
    let s ← get
    if ← atEnd then return [(key, value)]
    require (s.fresh && s.column ≤ column)
    if s.column < column then return [(key, value)]
    require (!(← atDash))
    let names ← properties false 2
    let (next, spans) ← inline n (column + 1)
    let next ← remember names next
    require (!spans && (← atColon))
    return (key, value) :: (← blockPairs column next n)

end

/-- Takes the directives in front of a document; gives their names. -/
def directives : Nat → Read (List String)
  | 0 => failure
  | n + 1 => do
    gap false
    let s ← get
    if s.column == 0 && s.rest.head? == some '%' then
      let line := s.rest.takeWhile (· != '\n')
      skip line.length
      match Text.words (String.ofList ((line.drop 1).takeWhile (· != '#'))) with
      | ["YAML", version] =>
        require (["1.1", "1.2"].contains version)
        let names ← directives n
        require (!names.contains "YAML")
        return "YAML" :: names
      | ["TAG", _, _] => return "TAG" :: (← directives n)
      | _ => failure
    else return []

/-- The only document of a stream. -/
def document : Read Value := do
  let names ← directives ((← get).rest.length + 1)
  if ← atMark "---" then skip 3 else require names.isEmpty
  let v ← blockNode 0 0 false (2 * (← get).rest.length + 2)
  gap false
  if ← atMark "..." then skip 3
  gap false
  require (← get).rest.isEmpty
  return v

end Read

/-- The text with every line end written in one way. -/
def normalized : List Char → List Char
  | [] => []
  | '\r' :: '\n' :: rest => '\n' :: normalized rest
  | '\r' :: rest => '\n' :: normalized rest
  | c :: rest => c :: normalized rest

/-- The document in a text. A byte order mark in front is not part of it. -/
def parse? (source : String) : Option Value :=
  (StateT.run Read.document { rest := normalized (Text.unmarked source.toList) }).map (·.1)

end LintEngine.Yaml
