import MailIndex.Calendar.EventDate
import MailIndex.Ingest.Scan
import MailIndex.Message.Envelope
import MailIndex.Store.Statement

/-!
# Ingestion

Every file that is an envelope is recorded in the store with the hash of its bytes. Nothing is
indexed: a document whose hash has changed becomes stale. A document that is loaded to be indexed
is read from its file again.
-/

namespace MailIndex.Ingest

structure Summary where
  scanned : Nat
  new : Nat
  changed : Nat
  unchanged : Nat
  /-- Files that are no envelopes. -/
  invalid : Nat
  deriving DecidableEq, Repr

inductive Error where
  | scan (e : ScanError)
  | storage (f : Failure)
  deriving DecidableEq, Repr

def Error.message : Error → Text
  | .scan e => e.message
  | .storage f => f.message

def recordOf (e : Envelope) (f : ScannedFile) : Record where
  id := e.documentId f.relativePath
  contentHash := some (bytesHash f.bytes)
  account := some e.accountOrDefault
  eventDate := e.date.bind Calendar.normalizeEventDate?
  sourcePath := some f.relativePath

/-- Counts a file under what the store knew of its document before. -/
def Summary.count (s : Summary) (known : Option Document) (hash : Option Text) : Summary :=
  match known with
  | none => { s with new := s.new + 1 }
  | some d =>
    if d.contentHash = hash then { s with unchanged := s.unchanged + 1 }
    else { s with changed := s.changed + 1 }

def ingestFile (f : ScannedFile) (summary : Summary) : Statement Summary := fun s =>
  match Envelope.ofBytes? f.bytes with
  | none => (.ok { summary with invalid := summary.invalid + 1 }, s)
  | some e =>
    let r := recordOf e f
    match Statement.find r.id s with
    | (.error failure, s) => (.error failure, s)
    | (.ok known, s) =>
      match Statement.upsert r s with
      | (.error failure, s) => (.error failure, s)
      | (.ok _, s) => (.ok (summary.count known r.contentHash), s)

def ingestFiles : List ScannedFile → Summary → Statement Summary
  | [], summary, s => (.ok summary, s)
  | f :: rest, summary, s =>
    match ingestFile f summary s with
    | (.ok summary, s) => ingestFiles rest summary s
    | failed => failed

def ingest (t : FileTree) (base : Path) (c : SourceConfig) (s : Store) :
    Except Error Summary × Store :=
  match scan t base c with
  | .error e => (.error (.scan e), s)
  | .ok files =>
    let (result, s) := ingestFiles files ⟨files.length, 0, 0, 0, 0⟩ s
    (result.mapError .storage, s)

def loadFrom (t : FileTree) (root : Path) (d : Document) : Option Message := do
  let bytes ← t.read? (Path.resolve root (← d.sourcePath))
  let e ← Envelope.ofBytes? bytes
  return e.toMessage (bytesHash bytes)

end MailIndex.Ingest
