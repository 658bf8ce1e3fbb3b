import MailIndex.Json.Reader
import MailIndex.Message.Basic
import MailIndex.Message.Identity

/-!
# Envelopes

A message as it is stored in a file: a JSON object with the fields of the message, or an array of
them in a fixed order. Fields may be missing; unknown members of an object are skipped.
-/

namespace MailIndex

open Text Json

inductive Recipients where
  | line (text : Text)
  | list (addresses : List Text)
  deriving DecidableEq, Repr

def Recipients.joined : Recipients → Text
  | .line text => text
  | .list addresses => Text.joined ", ".toList addresses

structure Envelope where
  id : Option Text
  account : Option Text
  date : Option Text
  subject : Text
  sender : Text
  recipients : Recipients
  body : Text
  attachments : List Text
  labels : List Text
  deriving DecidableEq, Repr

namespace Envelope

def empty : Envelope := ⟨none, none, none, [], [], .line [], [], [], []⟩

def readRecipients? (input : Input) : Option (Recipients × Input) :=
  match readText? input with
  | some (line, rest) => some (.line line, rest)
  | none => (readTexts? input).map fun (list, rest) => (.list list, rest)

/-- A field that reads its value and puts it into an envelope. -/
abbrev Reader := Envelope → Input → Option (Envelope × Input)

def reader {α : Type} (read : Input → Option (α × Input)) (put : Envelope → α → Envelope) :
    Reader :=
  fun e input => (read input).map fun (a, rest) => (put e a, rest)

def fields : List (Text × Reader) := [
  ("id".toList, reader readOptionalText? fun e v => { e with id := v }),
  ("account".toList, reader readOptionalText? fun e v => { e with account := v }),
  ("date".toList, reader readOptionalText? fun e v => { e with date := v }),
  ("subject".toList, reader readText? fun e v => { e with subject := v }),
  ("from".toList, reader readText? fun e v => { e with sender := v }),
  ("to".toList, reader readRecipients? fun e v => { e with recipients := v }),
  ("body".toList, reader readText? fun e v => { e with body := v }),
  ("attachments".toList, reader readTexts? fun e v => { e with attachments := v }),
  ("labels".toList, reader readTexts? fun e v => { e with labels := v })]

/-- The members of an object, from one key on. A known key may come once. -/
def readMembers (seen : List Text) (e : Envelope) : Nat → Input → Option (Envelope × Input)
  | 0, _ => none
  | fuel + 1, input =>
    match readText? input with
    | none => none
    | some (key, rest) =>
      let value := (expect? ':' rest).bind fun rest =>
        match fields.lookup key with
        | some read => if seen.contains key then none else read e rest
        | none => (skipValue? rest).map (e, ·)
      match value with
      | none => none
      | some (e, rest) =>
        match skipSpace rest with
        | some ',' :: rest => readMembers (key :: seen) e fuel rest
        | some '\x7d' :: rest => some (e, rest)
        | _ => none

def readElements (e : Envelope) : List (Text × Reader) → Input → Option (Envelope × Input)
  | [], _ => none
  | (_, read) :: fields, input =>
    match read e input with
    | none => none
    | some (e, rest) =>
      match skipSpace rest with
      | some ',' :: rest => readElements e fields rest
      | some ']' :: rest => some (e, rest)
      | _ => none

def read? (input : Input) : Option (Envelope × Input) :=
  match skipSpace input with
  | some '\x7b' :: rest =>
    match skipSpace rest with
    | some '\x7d' :: rest => some (empty, rest)
    | rest => readMembers [] empty rest.length rest
  | some '[' :: rest =>
    match skipSpace rest with
    | some ']' :: rest => some (empty, rest)
    | rest => readElements empty fields rest
  | _ => none

/-- The envelope in a file; nothing but white space may follow it. -/
def ofBytes? (bytes : List UInt8) : Option Envelope :=
  match read? (Text.ofBytes bytes) with
  | some (e, rest) => if (skipSpace rest).isEmpty then some e else none
  | none => none

/-- The account of a message that names none. -/
def defaultAccount : Text := "default".toList

def accountOrDefault (e : Envelope) : Text :=
  match e.account with
  | some account => if (trim account).isEmpty then defaultAccount else account
  | none => defaultAccount

/-- The identifier of the message: its own, or one made from its account and the path of its
file. -/
def documentId (e : Envelope) (path : Text) : Text :=
  let own := trim (e.id.getD [])
  if own.isEmpty then MailIndex.documentId e.accountOrDefault path else own

def toMessage (e : Envelope) (contentHash : Text) : Message where
  subject := e.subject
  sender := e.sender
  recipients := e.recipients.joined
  body := e.body
  attachments := e.attachments
  labels := e.labels
  contentHash := some contentHash

end Envelope

end MailIndex
