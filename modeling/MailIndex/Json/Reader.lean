import MailIndex.Text.Range

/-!
# Reading JSON

The input is a list of characters in which a byte outside any well-formed sequence counts as one
unreadable item. Texts that are read must be well-formed throughout. Values that nobody asked for
are only skipped: their structure is checked, but their texts may hold unreadable bytes or halves
of surrogate pairs, their numbers may be of any size, and they may nest to any depth.
-/

namespace MailIndex.Json

/-- Decoded input; `none` is an unreadable byte. -/
abbrev Input := List (Option Char)

def isSpace (item : Option Char) : Bool :=
  item == some ' ' || item == some '\n' || item == some '\t' || item == some '\r'

def skipSpace (input : Input) : Input := input.dropWhile isSpace

/-- The input after a given character, which may be preceded by white space. -/
def expect? (c : Char) (input : Input) : Option Input :=
  match skipSpace input with
  | some d :: rest => if d = c then some rest else none
  | _ => none

def literal? (word : Text) (input : Input) : Option Input :=
  if (word.map some).isPrefixOf input then some (input.drop word.length) else none

/-! ### Texts -/

def hexDigit? (item : Option Char) : Option Nat := do
  let c ← item
  if c.isDigit then some (c.toNat - '0'.toNat)
  else if 'a' ≤ c ∧ c ≤ 'f' then some (c.toNat - 'a'.toNat + 10)
  else if 'A' ≤ c ∧ c ≤ 'F' then some (c.toNat - 'A'.toNat + 10)
  else none

def hexUnit? : Input → Option (Nat × Input)
  | a :: b :: c :: d :: rest => do
    let a ← hexDigit? a
    let b ← hexDigit? b
    let c ← hexDigit? c
    let d ← hexDigit? d
    some (((a * 16 + b) * 16 + c) * 16 + d, rest)
  | _ => none

def shortEscape? : Char → Option Char
  | '"' => some '"'
  | '\\' => some '\\'
  | '/' => some '/'
  | 'b' => some '\x08'
  | 'f' => some '\x0c'
  | 'n' => some '\n'
  | 'r' => some '\r'
  | 't' => some '\t'
  | _ => none

/-- The character of a numbered escape, of two such escapes if they are a surrogate pair. -/
def numberedEscape? (input : Input) : Option (Char × Input) := do
  let (high, rest) ← hexUnit? input
  if high < 0xd800 ∨ 0xe000 ≤ high then some (Char.ofNat high, rest)
  else if 0xdc00 ≤ high then none
  else
    let rest ← literal? ['\\', 'u'] rest
    let (low, rest) ← hexUnit? rest
    if 0xdc00 ≤ low ∧ low < 0xe000 then
      some (Char.ofNat (0x10000 + (high - 0xd800) * 0x400 + (low - 0xdc00)), rest)
    else none

def escape? : Input → Option (Char × Input)
  | some 'u' :: rest => numberedEscape? rest
  | some c :: rest => (shortEscape? c).map (·, rest)
  | _ => none

/-- The rest of a text up to its closing quote; `done` holds, in reverse, what has been read. -/
def readTextFrom (done : Text) : Nat → Input → Option (Text × Input)
  | 0, _ => none
  | fuel + 1, input =>
    match input with
    | some '"' :: rest => some (done.reverse, rest)
    | some '\\' :: rest =>
      match escape? rest with
      | some (c, rest) => readTextFrom (c :: done) fuel rest
      | none => none
    | some c :: rest => if c.val < 0x20 then none else readTextFrom (c :: done) fuel rest
    | _ => none

def readText? (input : Input) : Option (Text × Input) := do
  let rest ← expect? '"' input
  readTextFrom [] rest.length rest

/-! ### Values that are skipped -/

def skipEscape? : Input → Option Input
  | some 'u' :: rest => (hexUnit? rest).map (·.2)
  | some c :: rest => (shortEscape? c).map fun _ => rest
  | _ => none

def skipTextFrom : Nat → Input → Option Input
  | 0, _ => none
  | fuel + 1, input =>
    match input with
    | [] => none
    | some '"' :: rest => some rest
    | some '\\' :: rest =>
      match skipEscape? rest with
      | some rest => skipTextFrom fuel rest
      | none => none
    | some c :: rest => if c.val < 0x20 then none else skipTextFrom fuel rest
    | none :: rest => skipTextFrom fuel rest

def isDigit (item : Option Char) : Bool := item.any Char.isDigit

def skipDigits? : Input → Option Input
  | d :: rest => if isDigit d then some (rest.dropWhile isDigit) else none
  | [] => none

/-- The input after the whole part of a number: a zero alone, or digits that start with another. -/
def skipWhole? : Input → Option Input
  | some '0' :: rest => if rest.head?.any isDigit then none else some rest
  | input => skipDigits? input

def skipFraction? : Input → Option Input
  | some '.' :: rest => skipDigits? rest
  | input => some input

def skipExponent? : Input → Option Input
  | some c :: rest =>
    if c = 'e' ∨ c = 'E' then
      match rest with
      | some '+' :: rest => skipDigits? rest
      | some '-' :: rest => skipDigits? rest
      | rest => skipDigits? rest
    else some (some c :: rest)
  | input => some input

def skipNumber? (input : Input) : Option Input :=
  let unsigned := match input with
    | some '-' :: rest => rest
    | input => input
  skipWhole? unsigned >>= skipFraction? >>= skipExponent?

def skipScalar? : Input → Option Input
  | some '"' :: rest => skipTextFrom rest.length rest
  | some 't' :: rest => literal? "rue".toList rest
  | some 'f' :: rest => literal? "alse".toList rest
  | some 'n' :: rest => literal? "ull".toList rest
  | input => skipNumber? input

/-- What is open while a value inside it is skipped. -/
inductive Bracket where
  | array
  | object
  deriving DecidableEq

def skipKey? (input : Input) : Option Input := do
  let rest ← expect? '"' input
  let rest ← skipTextFrom rest.length rest
  expect? ':' rest

/-- After a value: closes what ends here. Gives the brackets that stay open, and the input at
their next value; with no bracket left, the input after the whole value. -/
def resume? : List Bracket → Input → Option (List Bracket × Input)
  | [], input => some ([], input)
  | .array :: outer, input =>
    match skipSpace input with
    | some ',' :: rest => some (.array :: outer, rest)
    | some ']' :: rest => resume? outer rest
    | _ => none
  | .object :: outer, input =>
    match skipSpace input with
    | some ',' :: rest => (skipKey? rest).map (.object :: outer, ·)
    | some '\x7d' :: rest => resume? outer rest
    | _ => none

/-- Skips the value at the front. Either a bracket opens and gives the input at its first value, or
the value ends at once. -/
def enter? (outer : List Bracket) (input : Input) : Option (List Bracket × Input) :=
  match skipSpace input with
  | some '[' :: rest =>
    match skipSpace rest with
    | some ']' :: rest => resume? outer rest
    | rest => some (.array :: outer, rest)
  | some '\x7b' :: rest =>
    match skipSpace rest with
    | some '\x7d' :: rest => resume? outer rest
    | rest => (skipKey? rest).map (.object :: outer, ·)
  | input => skipScalar? input >>= resume? outer

/-- The input after the value at the front and all that is still open around it. -/
def skipFrom (outer : List Bracket) : Nat → Input → Option Input
  | 0, _ => none
  | fuel + 1, input =>
    match enter? outer input with
    | none => none
    | some ([], rest) => some rest
    | some (bracket :: outer, rest) => skipFrom (bracket :: outer) fuel rest

/-- The input after one value of any kind. Every step takes at least one character. -/
def skipValue? (input : Input) : Option Input := skipFrom [] input.length input

/-! ### Lists and options -/

def readElements {α : Type} (read : Input → Option (α × Input)) (done : List α) :
    Nat → Input → Option (List α × Input)
  | 0, _ => none
  | fuel + 1, input =>
    match read input with
    | none => none
    | some (a, rest) =>
      match skipSpace rest with
      | some ',' :: rest => readElements read (a :: done) fuel rest
      | some ']' :: rest => some ((a :: done).reverse, rest)
      | _ => none

def readList? {α : Type} (read : Input → Option (α × Input)) (input : Input) :
    Option (List α × Input) := do
  let rest ← expect? '[' input
  match skipSpace rest with
  | some ']' :: rest => some ([], rest)
  | rest => readElements read [] rest.length rest

def readTexts? (input : Input) : Option (List Text × Input) := readList? readText? input

def readOptionalText? (input : Input) : Option (Option Text × Input) :=
  match literal? "null".toList (skipSpace input) with
  | some rest => some (none, rest)
  | none => (readText? input).map fun (t, rest) => (some t, rest)

end MailIndex.Json
