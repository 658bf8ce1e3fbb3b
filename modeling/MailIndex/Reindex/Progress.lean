import MailIndex.Json.Value
import MailIndex.Text.Decimal.Grouped

/-!
# Progress of a reindex

What a run reports while it works, and the lines written for it: for a reader, or one JSON object
a line.
-/

namespace MailIndex.Reindex

open Text

inductive Event where
  | selecting
  /-- So many of the candidates have been dealt with. -/
  | indexing (n total : Nat)
  /-- So many of the documents have been checked for superseded entries. -/
  | pruning (n total : Nat)
  deriving DecidableEq, Repr

inductive ProgressMode where
  | off
  | human
  | json
  deriving DecidableEq, Repr

namespace ProgressMode

def name : ProgressMode → Text
  | .off => "off".toList
  | .human => "human".toList
  | .json => "json".toList

def ofName? (t : Text) : Option ProgressMode :=
  if t = "none".toList then some .off else [off, human, json].find? fun m => m.name = t

def unknownMessage (t : Text) : Text :=
  "unknown progress mode '".toList ++ t ++ "'; expected off, human or json".toList

end ProgressMode

namespace Event

def counted (phase : Text) (n total : Nat) : Text :=
  "reindex  ".toList ++ phase ++ "  ".toList ++ Decimal.withCommas n ++ " / ".toList
    ++ Decimal.withCommas total ++ " documents".toList

def humanLine : Event → Text
  | .selecting => "reindex  selecting...".toList
  | .indexing n total => counted "indexing".toList n total
  | .pruning n total => counted "pruning".toList n total

/-- The event as an object, its keys in alphabetical order. -/
def toJson : Event → Json.Value
  | .selecting =>
    .object [("event".toList, .text "progress".toList), ("phase".toList, .text "selecting".toList)]
  | .indexing n total => steps "indexing".toList n total
  | .pruning n total => steps "pruning".toList n total
where
  /-- An event that counts. -/
  steps (phase : Text) (n total : Nat) : Json.Value :=
    .object [("event".toList, .text "progress".toList), ("n".toList, .number n),
      ("phase".toList, .text phase), ("total".toList, .number total)]

end Event

def ProgressMode.lines (mode : ProgressMode) (events : List Event) : List Text :=
  match mode with
  | .off => []
  | .human => events.map Event.humanLine
  | .json => events.map fun e => e.toJson.compact

end MailIndex.Reindex
