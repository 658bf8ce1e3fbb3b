import MailIndex.Index.Rank
import MailIndex.Store.Document
import MailIndex.Store.SeqSet

/-!
# The store

Three tables: the documents, a ledger with one row for every index entry, and the full-text index
itself. The numbers of documents and entries are given out in ascending order and never twice.
Replacing an entry means adding a new one; the older ones are superseded and are taken out later.
-/

namespace MailIndex

open Match

inductive Table where
  | documents
  | entries
  | fullText
  deriving DecidableEq, Repr

def Table.name : Table → Text
  | .documents => "documents".toList
  | .entries => "fts_entries".toList
  | .fullText => "documents_fts".toList

def Table.all : List Table := [.documents, .entries, .fullText]

def Table.ofName? (t : Text) : Option Table := all.find? fun table => table.name = t

structure EntryRow where
  id : Nat
  docSeq : Nat
  deriving DecidableEq, Repr

structure Store where
  /-- The documents in the order of their numbers. -/
  documents : List Document
  /-- The last number that a document has taken, or an attempt to add one. -/
  lastSeq : Nat
  /-- The ledger in the order of its numbers. -/
  entries : List EntryRow
  /-- The last number that an entry has taken. -/
  lastEntry : Nat
  index : Index
  /-- The tables that do not exist; they hold nothing. -/
  missing : List Table
  deriving DecidableEq, Repr

namespace Store

def empty : Store := ⟨[], 0, [], 0, .empty, []⟩

def bare : Store := { empty with missing := Table.all }

def withSchema (s : Store) : Store := { s with missing := [] }

def drop (s : Store) : Table → Store
  | .documents =>
    { s with documents := [], lastSeq := 0, missing := .documents :: s.missing }
  | .entries => { s with entries := [], lastEntry := 0, missing := .entries :: s.missing }
  | .fullText => { s with index := .empty, missing := .fullText :: s.missing }

/-! ### Documents -/

def find? (s : Store) (id : Text) : Option Document := s.documents.find? (·.id = id)

def findSeq? (s : Store) (seq : Nat) : Option Document := s.documents.find? (·.seq = seq)

def change (s : Store) (condition : Document → Bool) (f : Document → Document) : Store :=
  { s with documents := s.documents.map fun d => if condition d then f d else d }

/-- Records a document, new or known. Gives its number. Every call uses up a number. -/
def upsert (s : Store) (r : Record) : Store × Nat :=
  let next := s.lastSeq + 1
  match s.find? r.id with
  | some d => ({ s.change (·.id = r.id) (·.updated r) with lastSeq := next }, d.seq)
  | none =>
    ({ s with documents := s.documents ++ [Document.ofRecord next r], lastSeq := next }, next)

def markIndexed (s : Store) (seq : Nat) (derived : Derived) (hash : Text) (now : Int) : Store :=
  s.change (·.seq = seq) (·.indexed derived hash now)

/-- Deletes the document with an identifier; its entries stay. -/
def deleteDocument (s : Store) (id : Text) : Store :=
  { s with documents := s.documents.filter (·.id ≠ id) }

/-! ### Entries -/

def entriesOf (s : Store) (seq : Nat) : List Nat :=
  (s.entries.filter (·.docSeq = seq)).map (·.id)

def addEntryRow (s : Store) (seq : Nat) : Store × Nat :=
  let next := s.lastEntry + 1
  ({ s with entries := s.entries ++ [⟨next, seq⟩], lastEntry := next }, next)

def addText (s : Store) (entry : Nat) (text : EntryText) : Store :=
  { s with index := s.index.insert entry text }

def addEntry (s : Store) (seq : Nat) (text : EntryText) : Store × Nat :=
  let (s, entry) := s.addEntryRow seq
  (s.addText entry text, entry)

def removeText (s : Store) (entry : Nat) : Store := { s with index := s.index.erase entry }

def removeEntryRow (s : Store) (entry : Nat) : Store :=
  { s with entries := s.entries.filter (·.id ≠ entry) }

def removeEntry (s : Store) (entry : Nat) : Store := (s.removeText entry).removeEntryRow entry

/-- The entries of a document that are older than its newest one. -/
def superseded (s : Store) (seq : Nat) : List Nat :=
  let own := s.entriesOf seq
  own.filter fun entry => own.any (entry < ·)

/-- Takes the superseded entries of a document out. Gives how many there were. -/
def prune (s : Store) (seq : Nat) : Store × Nat :=
  let old := s.superseded seq
  (old.foldl removeEntry s, old.length)

/-- The numbers that entries carry, whether their documents exist or not. -/
def owners (s : Store) : SeqSet := SeqSet.ofList (s.entries.map (·.docSeq))

def duplicates (s : Store) : List (Nat × Nat) :=
  (s.owners.map fun seq => (seq, (s.entriesOf seq).length)).filter (1 < ·.2)

def orphans (s : Store) : List EntryRow :=
  s.entries.filter fun row => !s.documents.any (·.seq = row.docSeq)

end Store

end MailIndex
