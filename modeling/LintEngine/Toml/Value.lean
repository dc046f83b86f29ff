/-!
TOML values, and how the expressions of a document build up its tables.

A table can be named before it is defined, as part of a longer name. The
marks on tables record how each came about, because they decide what may
still be added: a table has at most one header, dotted keys extend only
tables that have none, and inline tables and values are final.
-/

namespace LintEngine.Toml

inductive Value where
  | string (value : String)
  | integer (value : Int)
  | float (value : Float)
  | boolean (value : Bool)
  | datetime (text : String)
  | array (items : List Value)
  | table (entries : List (String × Value))
deriving Inhabited, Repr

/-- The entries of a table. -/
def Value.entries? : Value → Option (List (String × Value))
  | table entries => some entries
  | _ => none

def Value.string? : Value → Option String
  | string s => some s
  | _ => none

/-- The value of a key in a table. -/
def Value.get? (v : Value) (key : String) : Option Value := v.entries?.bind (·.lookup key)

/-- How a table came about. -/
inductive Mark where
  /-- As a part of a longer header. -/
  | implied
  /-- By its own header. -/
  | headed
  /-- As a part of a dotted key. -/
  | dotted
deriving DecidableEq, Repr, Inhabited

/-- A part of a document under construction. -/
inductive Item where
  | value (v : Value)
  | table (mark : Mark) (entries : List (String × Item))
  /-- Tables under one repeated header, the latest first. -/
  | tables (elements : List (List (String × Item)))
deriving Inhabited

abbrev Entries := List (String × Item)

/-- Replaces the item of a key, or adds one. -/
def put (key : String) (item : Item) : Entries → Entries
  | [] => [(key, item)]
  | (k, i) :: rest => if k == key then (key, item) :: rest else (k, i) :: put key item rest

/-- What is done to the entries of a table. -/
abbrev Change := Entries → Option Entries

/-- Applies a change in the table of a key, through the latest element of a
repeated one. A missing table is made with the given mark, and `enterable`
decides which tables can be entered. -/
def inTable (mark : Mark) (enterable : Mark → Bool) (key : String) (change : Change) : Change :=
  fun entries =>
    match entries.lookup key with
    | none => (change []).map fun inner => put key (.table mark inner) entries
    | some (.table m inner) =>
      if enterable m then (change inner).map fun inner => put key (.table m inner) entries else none
    | some (.tables (latest :: earlier)) =>
      (change latest).map fun latest => put key (.tables (latest :: earlier)) entries
    | some _ => none

/-- Applies a change at the end of the path of a header. -/
def along : List String → Change → Change
  | [], change => change
  | key :: keys, change => inTable .implied (fun _ => true) key (along keys change)

/-- Defines the table of a header. -/
def define (key : String) : Change := fun entries =>
  match entries.lookup key with
  | none => some (put key (.table .headed []) entries)
  | some (.table .implied inner) => some (put key (.table .headed inner) entries)
  | some _ => none

/-- Adds an element under a repeated header. -/
def append (key : String) : Change := fun entries =>
  match entries.lookup key with
  | none => some (put key (.tables [[]]) entries)
  | some (.tables elements) => some (put key (.tables ([] :: elements)) entries)
  | some _ => none

/-- Gives a dotted key its value. -/
def assign : List String → Value → Change
  | [], _ => fun _ => none
  | [key], v => fun entries =>
    if (entries.lookup key).isSome then none else some (put key (.value v) entries)
  | key :: keys, v => inTable .dotted (· != .headed) key (assign keys v)

mutual

/-- The finished value of an item. -/
def Item.toValue : Item → Value
  | .value v => v
  | .table _ entries => .table (toEntries entries)
  | .tables elements => .array (toTables elements).reverse

def toEntries : List (String × Item) → List (String × Value)
  | [] => []
  | (key, item) :: rest => (key, item.toValue) :: toEntries rest

def toTables : List (List (String × Item)) → List Value
  | [] => []
  | entries :: rest => .table (toEntries entries) :: toTables rest

end

end LintEngine.Toml
