import MailIndex.Index.Token
import MailIndex.Match.Term
import MailIndex.Message.Basic
import MailIndex.Text.Total

/-!
# Index entries

An entry holds the searchable text of one message in five columns. A term is looked for in one of
them or in each.
-/

namespace MailIndex

open Match

structure EntryText where
  subject : Text
  sender : Text
  recipients : Text
  body : Text
  attachments : Text
  deriving DecidableEq, Repr

namespace EntryText

def ofMessage (m : Message) : EntryText :=
  ⟨m.subject, m.sender, m.recipients, m.body, m.attachmentText⟩

def column (e : EntryText) : Column → Text
  | .subject => e.subject
  | .sender => e.sender
  | .recipients => e.recipients
  | .body => e.body
  | .attachments => e.attachments

def size (e : EntryText) : Nat :=
  total (Column.all.map fun c => (Index.tokens (e.column c)).length)

end EntryText

namespace Match.Term

def columns (t : Term) : List Column :=
  match t.column with
  | some c => [c]
  | none => Column.all

def tokens (t : Term) : List Index.Token := Index.tokens t.text

def isPresent (t : Term) : Bool := !t.tokens.isEmpty

def count (t : Term) (e : EntryText) : Nat :=
  total (t.columns.map fun c =>
    Index.occurrences t.starred t.tokens (Index.tokens (e.column c)))

def occursIn (t : Term) (e : EntryText) : Bool := t.isPresent && 0 < t.count e

/-- Whether all tokens of a term occur in an entry, adjacent or not. The column counts only for an
open token. -/
def scattered (t : Term) (e : EntryText) : Bool :=
  t.isPresent && t.tokens.zipIdx.all fun (token, i) =>
    let openEnd := t.starred && i + 1 = t.tokens.length
    (if openEnd then t.columns else Column.all).any fun c =>
      0 < Index.occurrences openEnd [token] (Index.tokens (e.column c))

end Match.Term

end MailIndex
