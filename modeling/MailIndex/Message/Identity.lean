import MailIndex.Digest.Sha256
import MailIndex.Message.Basic
import MailIndex.Text.Utf8

/-!
# Hashes and identifiers

The hash of a file's bytes, the hash of a message's searchable fields, and the identifier of a
message that does not carry one.
-/

namespace MailIndex

open Text Digest

def bytesHash (bytes : List UInt8) : Text := Sha256.hexDigest bytes

def documentId (account path : Text) : Text :=
  (bytesHash (toBytes account ++ 0 :: toBytes path)).take 24

def terminated (terminator : UInt8) (t : Text) : List UInt8 := toBytes t ++ [terminator]

/-- The bytes whose hash stands for the searchable fields of a message. -/
def Message.fieldBytes (m : Message) : List UInt8 :=
  [m.subject, m.sender, m.recipients, m.body].flatMap (terminated 0)
    ++ m.attachments.flatMap (terminated 0x1f)
    ++ [0]
    ++ m.labels.flatMap (terminated 0x1f)

/-- The hash of the searchable fields, for a message whose source knows no hash of its bytes. -/
def Message.fieldsHash (m : Message) : Text := bytesHash m.fieldBytes

end MailIndex
