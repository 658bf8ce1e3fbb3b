import MailIndex.Message.Address
import MailIndex.Message.Basic
import MailIndex.Message.Snippet

/-!
# Derived columns

What the store keeps of a message once it is indexed.
-/

namespace MailIndex

open Text

/-- The columns that are computed anew every time a message is indexed. -/
structure Derived where
  subject : Text
  senderDisplay : Text
  senderEmail : Option Text
  recipientsDisplay : Text
  recipientEmails : Option Text
  labels : Option Text
  hasAttachments : Bool
  snippet : Text
  deriving DecidableEq, Repr

/-- The labels that are not blank, trimmed, with commas between them; none if there are none. -/
def labelColumn? (labels : List Text) : Option Text :=
  let column := joined [','] ((labels.map trim).filter (!·.isEmpty))
  if column.isEmpty then none else some column

def Derived.ofMessage (m : Message) (snippetChars : Nat) : Derived where
  subject := m.subject
  senderDisplay := m.sender
  senderEmail := Address.ofDisplay? m.sender
  recipientsDisplay := m.recipients
  recipientEmails := Address.normalizeList? m.recipients
  labels := labelColumn? m.labels
  hasAttachments := m.attachments.any fun name => !(trim name).isEmpty
  snippet := Snippet.ofBody m.body snippetChars

end MailIndex
