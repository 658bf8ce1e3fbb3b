import MailIndex.Text.LowerCase

/-!
# Filters answered by columns

A structured filter is a condition on one column of a document, with at most one bound value. The
value is never part of the condition's text.
-/

namespace MailIndex.Query

inductive DateOp where
  | before
  | onOrAfter
  deriving DecidableEq, Repr

def DateOp.flipped : DateOp → DateOp
  | .before => .onOrAfter
  | .onOrAfter => .before

theorem DateOp.flipped_flipped (op : DateOp) : op.flipped.flipped = op := by
  cases op <;> rfl

inductive Predicate where
  /-- The sender's address is `email`. -/
  | senderIs (email : Text) (negated : Bool)
  /-- One of the recipients' addresses is `email`. -/
  | recipientIs (email : Text) (negated : Bool)
  /-- The labels contain `text`, without regard to ASCII case. -/
  | labelled (text : Text) (negated : Bool)
  /-- The event date lies before a day, or not before it. -/
  | dated (op : DateOp) (date : Text)
  | hasAttachments (wanted : Bool)
  deriving DecidableEq, Repr

/-- The condition on a document `d`, a question mark standing for the bound value. -/
def Predicate.condition : Predicate → Text
  | .senderIs _ false => "d.sender_email = ?".toList
  | .senderIs _ true => "d.sender_email IS NOT ?".toList
  | .recipientIs _ false => "instr(d.recipient_emails, ?) > 0".toList
  | .recipientIs _ true =>
    "(d.recipient_emails IS NULL OR instr(d.recipient_emails, ?) = 0)".toList
  | .labelled _ false => "instr(lower(d.labels), ?) > 0".toList
  | .labelled _ true => "(d.labels IS NULL OR instr(lower(d.labels), ?) = 0)".toList
  | .dated .before _ => "d.event_date < ?".toList
  | .dated .onOrAfter _ => "d.event_date >= ?".toList
  | .hasAttachments true => "d.has_attachments = 1".toList
  | .hasAttachments false => "d.has_attachments = 0".toList

/-- How deeply the condition is nested. A column of a table counts two, a name of a function or an
operator one more than the deepest of what it stands over. -/
def Predicate.depth : Predicate → Nat
  | .senderIs _ _ => 3
  | .recipientIs _ false => 4
  | .recipientIs _ true => 5
  | .labelled _ false => 5
  | .labelled _ true => 6
  | .dated _ _ => 3
  | .hasAttachments _ => 3

/-- An address between commas, so that it is found as a whole in a list of addresses. -/
def fenced (email : Text) : Text := ',' :: email ++ [',']

def Predicate.value? : Predicate → Option Text
  | .senderIs email _ => some email
  | .recipientIs email _ => some (fenced email)
  | .labelled text _ => some (Text.asciiLower text)
  | .dated _ date => some date
  | .hasAttachments _ => none

def Predicate.negation : Predicate → Predicate
  | .senderIs email negated => .senderIs email !negated
  | .recipientIs email negated => .recipientIs email !negated
  | .labelled text negated => .labelled text !negated
  | .dated op date => .dated op.flipped date
  | .hasAttachments wanted => .hasAttachments !wanted

theorem Predicate.negation_negation (p : Predicate) : p.negation.negation = p := by
  cases p <;> simp [negation, DateOp.flipped_flipped]

end MailIndex.Query
