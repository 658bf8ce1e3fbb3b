import MailIndex.Text.Blank

/-!
# Messages

The plain-text fields of a message as its source hands them over.
-/

namespace MailIndex

structure Message where
  subject : Text
  /-- The sender as displayed, such as a name and an address in angle brackets. -/
  sender : Text
  /-- The recipients as displayed, separated by commas. -/
  recipients : Text
  body : Text
  attachments : List Text
  labels : List Text
  /-- A hash of the raw bytes, if the source knows one. -/
  contentHash : Option Text
  deriving DecidableEq, Repr

def Message.empty : Message := ⟨[], [], [], [], [], [], none⟩

def Message.attachmentText (m : Message) : Text := Text.joined [' '] m.attachments

end MailIndex
