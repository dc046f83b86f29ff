/-!
Operations on text that the rest of the engine shares. Each is a short
function on the list of characters, so that a statement about it is a
statement about lists; `String` is only how text is stored.

Offsets are counted in UTF-8 bytes, because positions in reports are. An
offset that falls inside a character names no position, and `slice?`
answers `none` there.
-/

namespace LintEngine.Text

/-! ### White space -/

/-- The characters with the Unicode property White_Space, as closed ranges
of code points. -/
def blankRanges : List (Nat × Nat) :=
  [(0x09, 0x0D), (0x20, 0x20), (0x85, 0x85), (0xA0, 0xA0), (0x1680, 0x1680), (0x2000, 0x200A),
   (0x2028, 0x2029), (0x202F, 0x202F), (0x205F, 0x205F), (0x3000, 0x3000)]

/-- Whether a character is white space. -/
def isBlank (c : Char) : Bool :=
  blankRanges.any fun r => r.1 ≤ c.toNat && c.toNat ≤ r.2

/-- The text after a byte order mark at its front, if there is one. -/
def unmarked : List Char → List Char
  | '\uFEFF' :: cs => cs
  | cs => cs

/-- Drops from the end while `p` holds. -/
def dropEndWhile (p : Char → Bool) (cs : List Char) : List Char :=
  (cs.reverse.dropWhile p).reverse

def trimChars (cs : List Char) : List Char :=
  dropEndWhile isBlank (cs.dropWhile isBlank)

/-- The text without white space at either end. -/
def trim (s : String) : String := String.ofList (trimChars s.toList)

def trimEnd (s : String) : String := String.ofList (dropEndWhile isBlank s.toList)

/-- The text with every white space character removed. -/
def squeeze (s : String) : String := String.ofList (s.toList.filter fun c => !isBlank c)

/-- Splits at every character of a class; between two neighbours of the
class stands an empty field. -/
def splitChars (p : Char → Bool) : List Char → List (List Char)
  | [] => [[]]
  | c :: cs =>
    if p c then [] :: splitChars p cs
    else match splitChars p cs with
      | [] => [[c]]
      | w :: ws => (c :: w) :: ws

/-- The maximal runs without white space. -/
def words (s : String) : List String :=
  ((splitChars isBlank s.toList).filter fun w => !w.isEmpty).map String.ofList

/-! ### Fields between separators -/

/-- The fields between the occurrences of a separator; never empty. -/
def split (sep : Char) (s : String) : List String :=
  (splitChars (· == sep) s.toList).map String.ofList

/-- What follows the last separator, or the whole text. -/
def lastField (sep : Char) (s : String) : String :=
  String.ofList ((s.toList.reverse.takeWhile (· != sep)).reverse)

/-- The text before and after the first separator. -/
def splitOnce? (sep : Char) (s : String) : Option (String × String) :=
  match s.toList.dropWhile (· != sep) with
  | [] => none
  | _ :: rest => some (String.ofList (s.toList.takeWhile (· != sep)), String.ofList rest)

/-- The text before and after the last separator. -/
def splitLast? (sep : Char) (s : String) : Option (String × String) :=
  match s.toList.reverse.dropWhile (· != sep) with
  | [] => none
  | _ :: front => some (String.ofList front.reverse, lastField sep s)

def join (sep : String) (parts : List String) : String := sep.intercalate parts

/-! ### Fixed pieces at the ends and inside -/

def dropPrefix? (piece s : String) : Option String :=
  (piece.toList.isPrefixOf? s.toList).map String.ofList

def dropSuffix? (piece s : String) : Option String :=
  (piece.toList.isSuffixOf? s.toList).map String.ofList

def startsWith (piece s : String) : Bool := piece.toList.isPrefixOf s.toList

def endsWith (piece s : String) : Bool := piece.toList.isSuffixOf s.toList

/-- Drops a piece from the front as often as it stands there. The count is
bounded by the length, since a dropped piece is not empty. -/
def dropPrefixes (piece : List Char) : Nat → List Char → List Char
  | 0, cs => cs
  | n + 1, cs =>
    if piece.isEmpty then cs
    else match piece.isPrefixOf? cs with
      | some rest => dropPrefixes piece n rest
      | none => cs

def trimStartMatches (piece s : String) : String :=
  String.ofList (dropPrefixes piece.toList s.length s.toList)

def trimEndMatches (piece s : String) : String :=
  String.ofList (dropPrefixes piece.toList.reverse s.length s.toList.reverse).reverse

/-- The position, in characters, of the first occurrence of `piece`. -/
def indexOfChars? (piece : List Char) : List Char → Option Nat
  | [] => if piece.isEmpty then some 0 else none
  | c :: cs =>
    if piece.isPrefixOf (c :: cs) then some 0
    else (indexOfChars? piece cs).map (· + 1)

def contains (piece s : String) : Bool := (indexOfChars? piece.toList s.toList).isSome

/-- Replaces every occurrence of a non-empty `piece`, from left to right.
`skip` counts the characters of the occurrence just replaced that are still
to be passed over. -/
def replaceChars (piece new : List Char) : Nat → List Char → List Char
  | _, [] => []
  | skip + 1, _ :: cs => replaceChars piece new skip cs
  | 0, c :: cs =>
    if !piece.isEmpty && piece.isPrefixOf (c :: cs) then
      new ++ replaceChars piece new (piece.length - 1) cs
    else c :: replaceChars piece new 0 cs

def replace (piece new s : String) : String :=
  String.ofList (replaceChars piece.toList new.toList 0 s.toList)

def repeated (piece : String) (n : Nat) : String := String.join (List.replicate n piece)

/-! ### Byte offsets -/

/-- The number of bytes of a text. -/
def byteLength (cs : List Char) : Nat := cs.foldr (fun c n => c.utf8Size + n) 0

/-- What is left after exactly `n` bytes. -/
def dropBytes? : List Char → Nat → Option (List Char)
  | cs, 0 => some cs
  | [], _ + 1 => none
  | c :: cs, n + 1 =>
    if c.utf8Size ≤ n + 1 then dropBytes? cs (n + 1 - c.utf8Size) else none

/-- The first `n` bytes, exactly. -/
def takeBytes? : List Char → Nat → Option (List Char)
  | _, 0 => some []
  | [], _ + 1 => none
  | c :: cs, n + 1 =>
    if c.utf8Size ≤ n + 1 then (takeBytes? cs (n + 1 - c.utf8Size)).map (c :: ·) else none

def sliceChars? (cs : List Char) (start stop : Nat) : Option (List Char) :=
  if start ≤ stop then (dropBytes? cs start).bind (takeBytes? · (stop - start)) else none

/-- The text between two byte offsets; `none` when they are out of order,
past the end or inside a character. -/
def slice? (s : String) (start stop : Nat) : Option String :=
  (sliceChars? s.toList start stop).map String.ofList

end LintEngine.Text
