import MailIndex.Check.Audit
import MailIndex.Check.Repair

/-!
# Reports of a check

An audit, and what a repair before it has done, as lines for a reader or as JSON. A report that is
not healthy advises what to do.
-/

namespace MailIndex.Check

open Text.Decimal (digits)

structure Report where
  audit : Audit
  /-- What was repaired before the audit, if anything was to be. -/
  repaired : Option RepairSummary
  deriving DecidableEq, Repr

def Duplicate.toJson (d : Duplicate) : Json.Value :=
  .object [("id".toList, .text d.id), ("seq".toList, .number d.seq),
    ("entries".toList, .number d.entries)]

def orphanJson (row : EntryRow) : Json.Value :=
  .object [("entry_id".toList, .number row.id), ("doc_seq".toList, .number row.docSeq)]

def RepairSummary.toJson (s : RepairSummary) : Json.Value :=
  .object [("pruned_entries".toList, .number s.prunedEntries),
    ("removed_orphans".toList, .number s.removedOrphans),
    ("interrupted".toList, .bool s.interrupted)]

def RepairSummary.line (s : RepairSummary) : Text :=
  "Fixed: pruned ".toList ++ digits s.prunedEntries ++ " duplicate entries, removed ".toList
    ++ digits s.removedOrphans ++ " orphan entries".toList
    ++ if s.interrupted then " (interrupted)".toList else []

def Audit.advice (a : Audit) (repaired : Bool) : List Text :=
  let surplus := !a.duplicates.isEmpty || !a.orphans.isEmpty
  let lacking := !a.missing.isEmpty || !a.stale.isEmpty
  (if surplus && !repaired then
    ["Run `inboxdb db-check --fix` to remove duplicate and orphan entries.".toList] else [])
  ++ if lacking then ["Run `inboxdb reindex` to index missing and stale documents.".toList] else []

namespace Report

def isHealthy (r : Report) : Bool := r.audit.isHealthy

/-- A count, and what is counted if details are wanted. -/
def counted (title : String) (verbose : Bool) (details : List Text) : List Text :=
  ("  ".toList ++ title.toList ++ ": ".toList ++ digits details.length)
    :: if verbose then details.map ("    ".toList ++ ·) else []

def lines (verbose : Bool) (r : Report) : List Text :=
  let a := r.audit
  let number (title : String) (n : Nat) : Text := title.toList ++ ": ".toList ++ digits n
  let duplicates := a.duplicates.map fun d =>
    d.id ++ " (".toList ++ digits d.entries ++ " entries)".toList
  let orphans := a.orphans.map fun row =>
    "entry ".toList ++ digits row.id ++ " -> seq ".toList ++ digits row.docSeq
  ["Database check".toList, number "  documents" a.documents,
    number "  index entries" a.indexEntries, []]
    ++ (match r.repaired with
      | some summary => [summary.line, []]
      | none => [])
    ++ counted "duplicates" verbose duplicates ++ counted "orphans" verbose orphans
    ++ counted "missing from index" verbose a.missing ++ counted "stale" verbose a.stale
    ++ [number "  null content_hash" a.nullContentHash,
      number "  null indexed_hash" a.nullIndexedHash, []]
    ++ if r.isHealthy then ["OK: index is consistent".toList]
      else a.advice r.repaired.isSome

def toJson (r : Report) : Json.Value :=
  let a := r.audit
  .object ([("documents".toList, .number a.documents),
    ("index_entries".toList, .number a.indexEntries),
    ("duplicates".toList, .list (a.duplicates.map Duplicate.toJson)),
    ("orphans".toList, .list (a.orphans.map orphanJson)),
    ("missing".toList, .list (a.missing.map .text)), ("stale".toList, .list (a.stale.map .text)),
    ("null_content_hash".toList, .number a.nullContentHash),
    ("null_indexed_hash".toList, .number a.nullIndexedHash)]
    ++ (r.repaired.map fun s => ("fix".toList, s.toJson)).toList)

end Report

end MailIndex.Check
