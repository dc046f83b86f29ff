import LintEngine.Path
import LintEngine.Text.Digits
import LintEngine.Word

/-!
What the words of a command line ask for.
-/

namespace LintEngine.CommandLine

inductive OutputFormat where
  | compact
  | json
  | summary
deriving DecidableEq, Repr, Inhabited

def OutputFormat.ofName? : String → Option OutputFormat
  | "compact" => some .compact
  | "json" => some .json
  | "summary" => some .summary
  | _ => none

structure Options where
  /-- The project to analyze. -/
  path : Path := ⟨"."⟩
  /-- The file with the settings. -/
  config : Option Path := none
  targets : List Path := []
  exclude : List String := []
  format : OutputFormat := .compact
  /-- The file to write the report to. -/
  output : Option Path := none
  fatalOnly : Bool := false
  minSdk : Option Nat := none
  apiDatabase : Option Path := none
  remote : Bool := false
  noCommentSuppression : Bool := false
  parallel : Bool := true
  listIssues : Bool := false
  /-- The number of issues that a summary shows. -/
  top : Nat := 10
  verbose : Bool := false
  quiet : Bool := false
deriving Inhabited, Repr

/-- What a command line asks for. -/
inductive Request where
  | analyze (options : Options)
  | version
  | help
  /-- The words make no sense. -/
  | usage
deriving Inhabited, Repr

/-- What an option does. -/
inductive Effect where
  | flag (set : Options → Options)
  /-- Takes a value, if it is a proper one; `repeats` tells whether the option
  can be given again. -/
  | value (repeats : Bool) (set : String → Options → Option Options)
  | version
  | help

structure Switch where
  name : String
  letter : Option Char := none
  effect : Effect

/-- A value that names a path. -/
def path? (text : String) : Option Path := if text.isEmpty then none else some ⟨text⟩

/-- A number of so many bits, with an optional sign. -/
def number? (bits : Nat) (text : String) : Option Nat := do
  Word.unsigned? bits (← Text.integer? text)

/-- A number of so many bits, without a minus sign. -/
def natural? (bits : Nat) (text : String) : Option Nat :=
  (Text.unsigned? 10 text.toList).filter (· < Word.size bits)

/-- The values of a switch that is on or off. -/
def bool? : String → Option Bool
  | "true" => some true
  | "false" => some false
  | _ => none

def switches : List Switch :=
  [{ name := "config", letter := 'c', effect := .value false fun v o => do
      return { o with config := some (← path? v) } },
   { name := "target", letter := 't', effect := .value true fun v o => do
      return { o with targets := o.targets ++ [← path? v] } },
   { name := "exclude", letter := 'e', effect := .value true fun v o =>
      some { o with exclude := o.exclude ++ [v] } },
   { name := "format", letter := 'f', effect := .value false fun v o => do
      return { o with format := ← OutputFormat.ofName? v } },
   { name := "output", letter := 'o', effect := .value false fun v o => do
      return { o with output := some (← path? v) } },
   { name := "fatal-only", effect := .flag fun o => { o with fatalOnly := true } },
   { name := "min-sdk", effect := .value false fun v o => do
      return { o with minSdk := some (← number? 32 v) } },
   { name := "api-database", effect := .value false fun v o => do
      return { o with apiDatabase := some (← path? v) } },
   { name := "remote", effect := .flag fun o => { o with remote := true } },
   { name := "no-comment-suppression", effect := .flag fun o =>
      { o with noCommentSuppression := true } },
   { name := "parallel", effect := .value false fun v o => do
      return { o with parallel := ← bool? v } },
   { name := "list-issues", effect := .flag fun o => { o with listIssues := true } },
   { name := "top", effect := .value false fun v o => do
      return { o with top := ← natural? 64 v } },
   { name := "verbose", letter := 'v', effect := .flag fun o => { o with verbose := true } },
   { name := "quiet", letter := 'q', effect := .flag fun o => { o with quiet := true } },
   { name := "version", letter := 'V', effect := .version },
   { name := "help", letter := 'h', effect := .help }]

/-- What has been read so far. -/
structure Progress where
  options : Options := {}
  /-- The names of the options that were given. -/
  given : List String := []
  /-- Whether the path was given. -/
  hasPath : Bool := false
  /-- Whether all further words are paths. -/
  onlyPaths : Bool := false
deriving Inhabited

/-- The effect of reading a part of a word. -/
inductive Step where
  | go (p : Progress)
  /-- The option still needs a value. -/
  | needs (s : Switch) (p : Progress)
  | stop (r : Request)

/-- Notes that an option is given. One that does not repeat is given once. -/
def Progress.give? (p : Progress) (s : Switch) (repeats : Bool) (options : Options) :
    Option Progress :=
  if !repeats && p.given.contains s.name then none
  else some { p with options, given := s.name :: p.given }

/-- Gives an option its value. -/
def Progress.assign (p : Progress) (s : Switch) (value : String) : Step :=
  match s.effect with
  | .value repeats set =>
    match (set value p.options).bind (p.give? s repeats) with
    | some p => .go p
    | none => .stop .usage
  | _ => .stop .usage

/-- Takes an option that has no value yet. -/
def Progress.take (p : Progress) (s : Switch) : Step :=
  match s.effect with
  | .version => .stop .version
  | .help => .stop .help
  | .flag set => match p.give? s false (set p.options) with
    | some p => .go p
    | none => .stop .usage
  | .value _ _ => .needs s p

/-- Reads an option in its long form, after the two hyphens. -/
def Progress.long (p : Progress) (word : String) : Step :=
  let (name, value) := match Text.splitOnce? '=' word with
    | some (name, value) => (name, some value)
    | none => (word, none)
  match switches.find? (·.name == name), value with
  | none, _ => .stop .usage
  | some s, some value => p.assign s value
  | some s, none => p.take s

/-- Reads letters after one hyphen. What follows the letter of an option that
needs a value is the value. -/
def Progress.letters (p : Progress) : List Char → Step
  | [] => .go p
  | c :: rest =>
    match switches.find? (·.letter == some c) with
    | none => .stop .usage
    | some s =>
      match p.take s, rest with
      | .go p, _ => p.letters rest
      | .needs s p, '=' :: value => p.assign s (String.ofList value)
      | .needs s p, _ :: _ => p.assign s (String.ofList rest)
      | step, _ => step

/-- Reads the path; there is one at most. -/
def Progress.positional (p : Progress) (word : String) : Step :=
  match path? word with
  | some path =>
    if p.hasPath then .stop .usage
    else .go { p with options := { p.options with path }, hasPath := true }
  | none => .stop .usage

def isOption (word : String) : Bool := Text.startsWith "-" word && word != "-"

def Progress.word (p : Progress) (word : String) : Step :=
  if p.onlyPaths || !isOption word then p.positional word
  else if word == "--" then .go { p with onlyPaths := true }
  else match Text.dropPrefix? "--" word with
    | some long => p.long long
    | none => p.letters (word.toList.drop 1)

/-- Reads the words in their order. A value that is asked for is the next
word, unless that is an option. -/
def Progress.words (p : Progress) (waiting : Option Switch) : List String → Request
  | [] => if waiting.isSome then .usage else .analyze p.options
  | word :: rest =>
    let step : Step := match waiting with
      | some s => if isOption word then .stop .usage else p.assign s word
      | none => p.word word
    match step with
    | .go p => p.words none rest
    | .needs s p => p.words (some s) rest
    | .stop r => r

def parse (args : List String) : Request := Progress.words {} none args

end LintEngine.CommandLine
