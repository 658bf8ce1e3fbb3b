import MailIndex.Json.Value
import MailIndex.Store.Archive.Row
import MailIndex.Store.Basic
import MailIndex.Text.Decimal.Bounded
import MailIndex.Text.Utf8

/-!
# Archives

The form in which a store is kept in a file: one row for its counters, one for the tables that do
not exist, and one for every document, entry and indexed text.
-/

namespace MailIndex.Archive

open Text.Decimal (digits)

def numberField (n : Nat) : Option Text := some (digits n)

def timeField (t : Option Int) : Option Text := t.map Json.Value.decimal

def flagField (b : Bool) : Option Text := some (if b then ['1'] else ['0'])

def readNumber? (field : Option Text) : Option Nat := do
  (Text.Decimal.readCount (← field)).toOption

def readTime? : Option Text → Option (Option Int)
  | none => some none
  | some t => (Text.Decimal.readInteger t).toOption.map some

/-! ### Rows of the parts of a store -/

def kind (name : String) : Option Text := some name.toList

def countersRow (s : Store) : Row :=
  [kind "counters", numberField s.lastSeq, numberField s.lastEntry,
    numberField s.index.entriesSeen, numberField s.index.tokensSeen]

def missingRow (s : Store) : Row := kind "missing" :: s.missing.map fun table => some table.name

def derivedFields (d : Derived) : Row :=
  [some d.subject, some d.senderDisplay, d.senderEmail, some d.recipientsDisplay,
    d.recipientEmails, d.labels, flagField d.hasAttachments, some d.snippet]

def documentRow (d : Document) : Row :=
  [kind "document", numberField d.seq, some d.id, d.account, d.sourcePath, d.contentHash,
    d.indexedHash, d.eventDate, timeField d.indexedAt]
    ++ (d.derived.map derivedFields).getD []

def entryRow (row : EntryRow) : Row := [kind "entry", numberField row.id, numberField row.docSeq]

def textRow (row : IndexRow) : Row :=
  [kind "text", numberField row.id, some row.text.subject, some row.text.sender,
    some row.text.recipients, some row.text.body, some row.text.attachments]

def rows (s : Store) : List Row :=
  countersRow s :: missingRow s :: s.documents.map documentRow ++ s.entries.map entryRow
    ++ s.index.rows.map textRow

def encode (s : Store) : Text := Text.ofLines ((rows s).map Row.encode)

/-! ### Reading -/

def readDerived? : Row → Option (Option Derived)
  | [] => some none
  | [subject, sender, senderEmail, recipients, recipientEmails, labels, attachments, snippet] => do
    some (some ⟨← subject, ← sender, senderEmail, ← recipients, recipientEmails, labels,
      (← attachments) == ['1'], ← snippet⟩)
  | _ => none

def readDocument? : Row → Option Document
  | seq :: id :: account :: path :: contentHash :: indexedHash :: date :: time :: derived => do
    some ⟨← readNumber? seq, ← id, account, path, contentHash, indexedHash, date,
      ← readDerived? derived, ← readTime? time⟩
  | _ => none

def readText? : Row → Option IndexRow
  | [id, subject, sender, recipients, body, attachments] => do
    some ⟨← readNumber? id, ⟨← subject, ← sender, ← recipients, ← body, ← attachments⟩⟩
  | _ => none

/-- The store with what a row says. Rows of one kind come in reverse. -/
def readRow (s : Store) : Row → Option Store
  | some kind :: fields =>
    if kind = "counters".toList then
      match fields with
      | [seq, entry, entriesSeen, tokensSeen] => do
        some { s with
          lastSeq := ← readNumber? seq
          lastEntry := ← readNumber? entry
          index := { s.index with
            entriesSeen := ← readNumber? entriesSeen
            tokensSeen := ← readNumber? tokensSeen } }
      | _ => none
    else if kind = "missing".toList then do
      some { s with missing := ← fields.mapM fun name => name.bind Table.ofName? }
    else if kind = "document".toList then do
      some { s with documents := (← readDocument? fields) :: s.documents }
    else if kind = "entry".toList then
      match fields with
      | [id, seq] => do
        some { s with entries := ⟨← readNumber? id, ← readNumber? seq⟩ :: s.entries }
      | _ => none
    else if kind = "text".toList then do
      some { s with index := { s.index with rows := (← readText? fields) :: s.index.rows } }
    else none
  | _ => none

/-- The store that a text keeps; an empty text keeps one without tables. -/
def decode? (t : Text) : Option Store := do
  let lines := (Text.split '\n' t).filter (!·.isEmpty)
  let s ← (← lines.mapM Row.decode?).foldlM readRow Store.bare
  some { s with
    documents := s.documents.reverse
    entries := s.entries.reverse
    index := { s.index with rows := s.index.rows.reverse } }

end MailIndex.Archive
