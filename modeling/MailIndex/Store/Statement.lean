import MailIndex.Match.Reader
import MailIndex.Store.Basic

/-!
# Statements

What is done to a store that may lack tables. A statement fails when it needs a table that does not
exist, and when its condition is nested too deeply; what it did before it failed stays done.
-/

namespace MailIndex

inductive Failure where
  | noTable (table : Table)
  /-- The condition is nested deeper than the database takes. -/
  | tooDeep
  /-- The index cannot read a match expression. -/
  | badExpression
  deriving DecidableEq, Repr

def Failure.message : Failure → Text
  | .noTable table =>
    "error returned from database: (code: 1) no such table: ".toList ++ table.name
  | .tooDeep =>
    "error returned from database: (code: 1) Expression tree is too large ".toList ++
      "(maximum depth 1000)".toList
  | .badExpression => "error returned from database: (code: 1) fts5: syntax error".toList

/-! ## The depth of a condition -/

def greatestDepth : Nat := 1000

/-- The depth of a condition after others have been joined to its right. A join stands above all that
is to the left of it. -/
def joinedTo (total : Nat) : List Nat → Nat
  | [] => total
  | depth :: rest => joinedTo (max total depth + 1) rest

def joinedDepth : List Nat → Nat
  | [] => 0
  | depth :: rest => joinedTo depth rest

def withinDepth (depth : Nat) : Except Failure Unit :=
  if depth ≤ greatestDepth then .ok () else .error .tooDeep

theorem withinDepth_of_le {depth : Nat} (h : depth ≤ greatestDepth) : withinDepth depth = .ok () :=
  if_pos h

theorem withinDepth_of_lt {depth : Nat} (h : greatestDepth < depth) :
    withinDepth depth = .error .tooDeep :=
  if_neg (Nat.not_le.mpr h)

/-! ## Tables -/

namespace Store

def lacking? (s : Store) (tables : List Table) : Option Table :=
  tables.find? fun t => s.missing.contains t

def needing {α : Type} (s : Store) (tables : List Table) (result : α) : Except Failure α :=
  match s.lacking? tables with
  | some t => .error (.noTable t)
  | none => .ok result

theorem needing_of_missing_nil {α : Type} {s : Store} (h : s.missing = []) (tables : List Table)
    (result : α) : s.needing tables result = .ok result := by
  have hnone : s.lacking? tables = none := by simp [lacking?, h]
  simp [needing, hnone]

theorem needing_of_present {α : Type} {s : Store} {table : Table} (h : table ∉ s.missing)
    (result : α) : s.needing [table] result = .ok result := by
  simp [needing, lacking?, h]

theorem needing_of_absent {α : Type} {s : Store} {table : Table} (h : table ∈ s.missing)
    (result : α) : s.needing [table] result = .error (.noTable table) := by
  simp [needing, lacking?, h]

end Store

/-! ## Statements -/

/-- A statement gives its result, or why it failed, and the store after it. -/
abbrev Statement (α : Type) := Store → Except Failure α × Store

namespace Statement

def read {α : Type} (tables : List Table) (f : Store → α) : Statement α :=
  fun s => (s.needing tables (f s), s)

def write {α : Type} (tables : List Table) (f : Store → Store × α) : Statement α := fun s =>
  match s.needing tables (f s) with
  | .ok (s, a) => (.ok a, s)
  | .error e => (.error e, s)

def upsert (r : Record) : Statement Nat := write [.documents] (·.upsert r)

def find (id : Text) : Statement (Option Document) := read [.documents] (·.find? id)

def counts : Statement (Nat × Nat) :=
  read [.documents, .entries] fun s => (s.documents.length, s.entries.length)

def whole : Statement Store := read [.documents, .entries] id

def dropTable (table : Table) : Statement Unit := write [table] fun s => (s.drop table, ())

def entryCount (seq : Nat) : Statement Nat := read [.entries] fun s => (s.entriesOf seq).length

def duplicates : Statement (List (Nat × Nat)) := read [.entries] (·.duplicates)

def orphans : Statement (List EntryRow) := read [.entries, .documents] (·.orphans)

def markIndexed (seq : Nat) (derived : Derived) (hash : Text) (now : Int) : Statement Bool :=
  write [.documents] fun s =>
    (s.markIndexed seq derived hash now, (s.findSeq? seq).isSome)

/-- Adds an entry. When there is no index, the row of the ledger is there all the same. -/
def insertEntry (seq : Nat) (text : EntryText) : Statement Nat := fun s =>
  match write [.entries] (·.addEntryRow seq) s with
  | (.ok entry, s) => write [.fullText] (fun s => (s.addText entry text, entry)) s
  | failed => failed

/-- Takes an entry out, first of the index and then of the ledger. -/
def deleteEntry (entry : Nat) : Statement Unit := fun s =>
  match write [.fullText] (fun s => (s.removeText entry, ())) s with
  | (.ok (), s) => write [.entries] (fun s => (s.removeEntryRow entry, ())) s
  | failed => failed

/-- Takes the superseded entries of a document out; the index is needed only if there are any. -/
def prune (seq : Nat) : Statement Nat := fun s =>
  let tables := if (s.superseded seq).isEmpty then [.entries] else [.entries, .fullText]
  write tables (·.prune seq) s

def deleteDocument (id : Text) : Statement Nat :=
  write [.documents] fun s =>
    (s.deleteDocument id, if (s.find? id).isSome then 1 else 0)

def changeDocument (id : Text) (f : Document → Document) : Statement Nat :=
  write [.documents] fun s =>
    (s.change (·.id = id) f, if (s.find? id).isSome then 1 else 0)

/-- Adds a row to the ledger for the document with an identifier, without any text. Gives how many
there were. -/
def addBareEntry (id : Text) : Statement Nat :=
  write [.entries, .documents] fun s =>
    match s.find? id with
    | some d => ((s.addEntryRow d.seq).1, 1)
    | none => (s, 0)

def selected (expression : Text) : Statement (List Nat) := fun s =>
  match s.needing [.fullText] (Match.Expression.accepted? expression) with
  | .error e => (.error e, s)
  | .ok none => (.error .badExpression, s)
  | .ok (some e) => (.ok (SeqSet.ofList (s.index.selected e)), s)

end Statement

end MailIndex
