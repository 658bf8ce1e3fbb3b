import MailIndex.Message.Derived
import MailIndex.Store.Ternary

/-!
# Documents

A row of the document table. Ingestion writes what it knows of a file; the derived columns and the
hash of what was indexed are written when the document is indexed.
-/

namespace MailIndex

/-- What ingestion knows about a document. Missing values leave the stored ones as they are. -/
structure Record where
  id : Text
  contentHash : Option Text
  account : Option Text
  eventDate : Option Text
  /-- The path of the file below the root of the messages. -/
  sourcePath : Option Text
  deriving DecidableEq, Repr

structure Document where
  seq : Nat
  id : Text
  account : Option Text
  sourcePath : Option Text
  contentHash : Option Text
  /-- The content hash for which the index entry was made. -/
  indexedHash : Option Text
  eventDate : Option Text
  derived : Option Derived
  /-- The time of the last indexing, in seconds. -/
  indexedAt : Option Int
  deriving DecidableEq, Repr

namespace Document

def ofRecord (seq : Nat) (r : Record) : Document :=
  ⟨seq, r.id, r.account, r.sourcePath, r.contentHash, none, r.eventDate, none, none⟩

def updated (d : Document) (r : Record) : Document :=
  { d with
    contentHash := r.contentHash <|> d.contentHash
    account := r.account <|> d.account
    eventDate := r.eventDate <|> d.eventDate
    sourcePath := r.sourcePath <|> d.sourcePath }

/-- Whether the index holds what the document holds: both hashes are set and equal. -/
def isFresh (d : Document) : Bool := d.contentHash.isSome && d.indexedHash == d.contentHash

/-- Whether the index has to take the document up: a hash is null, or they differ. -/
def isStale (d : Document) : Bool :=
  (((Ternary.isNull d.indexedHash).either (.isNull d.contentHash)).either
    (.distinct d.indexedHash d.contentHash)).holds

@[simp] theorem isStale_eq (d : Document) : d.isStale = !d.isFresh := by
  unfold isStale isFresh
  cases d.indexedHash with
  | none => cases d.contentHash <;> simp
  | some indexed =>
      cases d.contentHash with
      | none => simp
      | some content =>
          rw [Bool.eq_iff_iff]
          simp

/-- Whether the document counts as fresh where documents are counted. -/
def freshness (d : Document) : Ternary :=
  (Ternary.isPresent d.contentHash).both (.equal d.indexedHash d.contentHash)

@[simp] theorem holds_freshness (d : Document) : d.freshness.holds = d.isFresh := by
  unfold freshness isFresh
  rw [Bool.eq_iff_iff]
  cases d.contentHash <;> cases d.indexedHash <;> simp

/-- The document as indexed under a hash. A document without a content hash takes the same one. -/
def indexed (d : Document) (derived : Derived) (hash : Text) (now : Int) : Document :=
  { d with
    derived := some derived
    indexedHash := some hash
    contentHash := d.contentHash <|> some hash
    indexedAt := some now }

theorem isFresh_ofRecord (seq : Nat) (r : Record) : (ofRecord seq r).isFresh = false := by
  cases h : r.contentHash <;> simp [ofRecord, isFresh, h]

/-- What patterns over paths are matched against: the path, or the identifier without one. -/
def target (d : Document) : Text := d.sourcePath.getD d.id

def senderEmail (d : Document) : Option Text := d.derived.bind (·.senderEmail)

def recipientEmails (d : Document) : Option Text := d.derived.bind (·.recipientEmails)

def labels (d : Document) : Option Text := d.derived.bind (·.labels)

def hasAttachments (d : Document) : Bool := d.derived.any (·.hasAttachments)

end Document

end MailIndex
