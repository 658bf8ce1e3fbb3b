import MailIndex.Query.Predicate
import MailIndex.Store.Document
import MailIndex.Text.Blank

/-!
# Conditions on columns

What a structured filter says of a document. A comparison with a column that has no value is
neither true nor false, and only what is true selects.
-/

namespace MailIndex.Query.Predicate

/-- The truth value of a filter for a document; none where a comparison has nothing to compare. -/
def truth (p : Predicate) (d : Document) : Option Bool :=
  match p with
  | .senderIs email false => d.senderEmail.map (· == email)
  | .senderIs email true => some (d.senderEmail != some email)
  | .recipientIs email false => d.recipientEmails.map (Text.occursIn (fenced email))
  | .recipientIs email true => some (!d.recipientEmails.any (Text.occursIn (fenced email)))
  | .labelled text false =>
    d.labels.map fun labels => Text.occursIn (Text.asciiLower text) (Text.asciiLower labels)
  | .labelled text true =>
    some (!d.labels.any fun labels =>
      Text.occursIn (Text.asciiLower text) (Text.asciiLower labels))
  | .dated .before date => d.eventDate.map fun own => own < date
  | .dated .onOrAfter date => d.eventDate.map fun own => !decide (own < date)
  | .hasAttachments wanted => some (d.hasAttachments == wanted)

def selects (p : Predicate) (d : Document) : Bool := p.truth d == some true

end MailIndex.Query.Predicate
