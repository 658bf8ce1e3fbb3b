import MailIndex.Text.Blank

/-!
# Terms of a match expression

A match expression selects entries of the full-text index. Its terms are phrases: each may be
restricted to one column, and its last word may be left open with a star.
-/

namespace MailIndex.Match

inductive Column where
  | subject
  | sender
  | recipients
  | body
  | attachments
  deriving DecidableEq, Repr

def Column.name : Column → Text
  | .subject => "subject".toList
  | .sender => "sender".toList
  | .recipients => "recipients".toList
  | .body => "body".toList
  | .attachments => "attachments".toList

def Column.all : List Column := [.subject, .sender, .recipients, .body, .attachments]

/-- The column with a given name, ASCII letters compared without regard to case. -/
def Column.ofName? (name : Text) : Option Column :=
  Column.all.find? fun c => c.name = name.map Char.toLower

theorem Column.ofName?_name (c : Column) : Column.ofName? c.name = some c := by
  cases c <;> rfl

/-- A phrase to look for: the column it is restricted to, its text, and whether its last word may
go on. -/
structure Term where
  column : Option Column
  text : Text
  starred : Bool
  deriving DecidableEq, Repr

def keywords : List Text := ["AND".toList, "OR".toList, "NOT".toList, "NEAR".toList]

def isBareword (c : Char) : Bool := c.isAlphanum || c == '_' || 0x80 ≤ c.val

def quoted (text : Text) : Text :=
  '"' :: text.flatMap (fun c => if c = '"' then ['"', '"'] else [c]) ++ ['"']

end MailIndex.Match
