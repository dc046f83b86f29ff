import LintEngine.Text.Digits
import LintEngine.Word

/-!
Facts: values that detectors record about the whole project while they see
single files. The first value recorded under a key stays.
-/

namespace LintEngine

/-- A value kept for a decision that is made later. -/
inductive DataValue where
  | int (v : Int)
  | bool (v : Bool)
  | str (v : String)
deriving DecidableEq, Repr, Inhabited

/-- Values by key; of two entries with one key the first counts. -/
abbrev Data := List (String × DataValue)

namespace Data

def int? (d : Data) (key : String) : Option Int :=
  match d.lookup key with
  | some (.int v) => some v
  | _ => none

def bool? (d : Data) (key : String) : Option Bool :=
  match d.lookup key with
  | some (.bool v) => some v
  | _ => none

def str? (d : Data) (key : String) : Option String :=
  match d.lookup key with
  | some (.str v) => some v
  | _ => none

end Data

structure Facts where
  entries : Data := []
deriving Repr, Inhabited

namespace Facts

/-- The key of the minimum API level. -/
def minSdkKey : String := "minSdkVersion"

/-- The key of the API level that the project is built for. -/
def targetSdkKey : String := "targetSdkVersion"

/-- The key of the support for layouts from right to left. -/
def supportsRtlKey : String := "supportsRtl"

def get? (f : Facts) (key : String) : Option DataValue := f.entries.lookup key

/-- Records a value, unless the key has one. -/
def record (f : Facts) (key : String) (v : DataValue) : Facts :=
  if (f.get? key).isSome then f else ⟨f.entries ++ [(key, v)]⟩

/-- Gives a key a value, whatever it had. -/
def set (f : Facts) (key : String) (v : DataValue) : Facts :=
  ⟨(key, v) :: f.entries.filter (·.1 != key)⟩

/-- Records all values of another set of facts. -/
def merge (f other : Facts) : Facts := other.entries.foldl (fun f e => f.record e.1 e.2) f

def isEmpty (f : Facts) : Bool := f.entries.isEmpty

/-- The minimum API level, if one is known that fits 32 bits. -/
def minSdk (f : Facts) : Option Nat := do
  Word.unsigned? 32 (← f.entries.int? minSdkKey)

def supportsRtl (f : Facts) : Bool := (f.entries.bool? supportsRtlKey).getD false

end Facts

end LintEngine
