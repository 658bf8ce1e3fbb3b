import MailIndex.Text.Decimal.Grouped

/-!
# Writing JSON

The values that are written, and their two printed forms: on one line, or spread over lines with
two spaces of indentation for every level.
-/

namespace MailIndex.Json

inductive Value where
  | null
  | bool (b : Bool)
  | number (n : Int)
  | text (t : Text)
  | list (elements : List Value)
  /-- Members in the order in which they are written. -/
  | object (members : List (Text × Value))

namespace Value

def ofOption : Option Text → Value
  | some t => .text t
  | none => .null

def escaped (c : Char) : Text :=
  match c with
  | '"' => ['\\', '"']
  | '\\' => ['\\', '\\']
  | '\x08' => ['\\', 'b']
  | '\x0c' => ['\\', 'f']
  | '\n' => ['\\', 'n']
  | '\r' => ['\\', 'r']
  | '\t' => ['\\', 't']
  | c =>
    if c.val < 0x20 then
      "\\u00".toList ++ [Nat.digitChar (c.toNat / 16), Nat.digitChar (c.toNat % 16)]
    else [c]

def quoted (t : Text) : Text := '"' :: t.flatMap escaped ++ ['"']

def decimal (n : Int) : Text :=
  if n < 0 then '-' :: Text.Decimal.digits n.natAbs else Text.Decimal.digits n.natAbs

mutual

def compact : Value → Text
  | .null => "null".toList
  | .bool b => if b then "true".toList else "false".toList
  | .number n => decimal n
  | .text t => quoted t
  | .list elements => '[' :: compactElements true elements ++ [']']
  | .object members => '\x7b' :: compactMembers true members ++ ['\x7d']

def compactElements (first : Bool) : List Value → Text
  | [] => []
  | v :: rest => (if first then [] else [',']) ++ v.compact ++ compactElements false rest

def compactMembers (first : Bool) : List (Text × Value) → Text
  | [] => []
  | (key, v) :: rest =>
    (if first then [] else [',']) ++ quoted key ++ ':' :: v.compact ++ compactMembers false rest

end

def newLine (level : Nat) : Text := '\n' :: List.replicate (2 * level) ' '

mutual

/-- The value over several lines, `level` being that of the line it starts on. -/
def prettyAt (level : Nat) : Value → Text
  | .null => "null".toList
  | .bool b => if b then "true".toList else "false".toList
  | .number n => decimal n
  | .text t => quoted t
  | .list [] => "[]".toList
  | .list (v :: rest) =>
    '[' :: newLine (level + 1) ++ v.prettyAt (level + 1) ++ prettyElements (level + 1) rest
      ++ newLine level ++ [']']
  | .object [] => ['\x7b', '\x7d']
  | .object ((key, v) :: rest) =>
    '\x7b' :: newLine (level + 1) ++ quoted key ++ ": ".toList ++ v.prettyAt (level + 1)
      ++ prettyMembers (level + 1) rest ++ newLine level ++ ['\x7d']

def prettyElements (level : Nat) : List Value → Text
  | [] => []
  | v :: rest => ',' :: newLine level ++ v.prettyAt level ++ prettyElements level rest

def prettyMembers (level : Nat) : List (Text × Value) → Text
  | [] => []
  | (key, v) :: rest =>
    ',' :: newLine level ++ quoted key ++ ": ".toList ++ v.prettyAt level
      ++ prettyMembers level rest

end

def pretty (v : Value) : Text := v.prettyAt 0

end Value

end MailIndex.Json
