import MailIndex.Text.Range

/-!
# Filter fields

The names that may stand before a colon in a search.
-/

namespace MailIndex.Query

inductive Field where
  | sender
  | recipient
  | subject
  | label
  | before
  | after
  | has
  | attachment
  deriving DecidableEq, Repr

def Field.name : Field → Text
  | .sender => "from".toList
  | .recipient => "to".toList
  | .subject => "subject".toList
  | .label => "label".toList
  | .before => "before".toList
  | .after => "after".toList
  | .has => "has".toList
  | .attachment => "attachment".toList

def Field.names : List (Text × Field) := [
  ("from".toList, .sender), ("sender".toList, .sender),
  ("to".toList, .recipient), ("recipients".toList, .recipient),
  ("subject".toList, .subject),
  ("label".toList, .label), ("tag".toList, .label),
  ("before".toList, .before),
  ("after".toList, .after),
  ("has".toList, .has),
  ("attachment".toList, .attachment), ("attachments".toList, .attachment)]

def Field.ofName? (name : Text) : Option Field := Field.names.lookup name

theorem Field.ofName?_name (f : Field) : Field.ofName? f.name = some f := by
  cases f <;> rfl

end MailIndex.Query
