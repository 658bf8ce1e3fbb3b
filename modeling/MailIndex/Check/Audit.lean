import MailIndex.Json.Value
import MailIndex.Store.Statement

/-!
# Audits

An audit compares the documents with their index entries. The index is healthy when every document
owns exactly one entry, every entry has its document, and no document is stale.
-/

namespace MailIndex.Check

structure Duplicate where
  id : Text
  seq : Nat
  entries : Nat
  deriving DecidableEq, Repr

structure Audit where
  documents : Nat
  indexEntries : Nat
  duplicates : List Duplicate
  /-- Entries without a document. -/
  orphans : List EntryRow
  /-- Documents without an entry. -/
  missing : List Text
  /-- Documents whose hashes are both set and differ. -/
  stale : List Text
  nullContentHash : Nat
  nullIndexedHash : Nat
  deriving DecidableEq, Repr

namespace Audit

def isHealthy (a : Audit) : Bool :=
  a.duplicates.isEmpty && a.orphans.isEmpty && a.missing.isEmpty && a.stale.isEmpty

/-- Whether both hashes of a document are set and differ. -/
def isStale (d : Document) : Bool :=
  (((Ternary.isPresent d.contentHash).both (.isPresent d.indexedHash)).both
    (.distinct d.contentHash d.indexedHash)).holds

def ofStore (s : Store) : Audit where
  documents := s.documents.length
  indexEntries := s.entries.length
  duplicates := (s.documents.map fun d => ⟨d.id, d.seq, (s.entriesOf d.seq).length⟩).filter
    (1 < ·.entries)
  orphans := s.orphans
  missing := (s.documents.filter fun d => (s.entriesOf d.seq).isEmpty).map (·.id)
  stale := (s.documents.filter isStale).map (·.id)
  nullContentHash := (s.documents.filter (·.contentHash.isNone)).length
  nullIndexedHash := (s.documents.filter (·.indexedHash.isNone)).length

end Audit

def audit : Statement Audit := Statement.read [.documents, .entries] Audit.ofStore

end MailIndex.Check
