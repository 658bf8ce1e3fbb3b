import MailIndex.Reindex.Run

/-!
# Listing a reindex

The report of a run as lines for a reader. Counts that are zero on a smooth run are left out.
-/

namespace MailIndex.Reindex.Report

open Text.Decimal (digits)

def counted (title : String) (n : Nat) : Text := title.toList ++ digits n

def countedIfAny (title : String) (n : Nat) : List Text :=
  if n = 0 then [] else [counted title n]

def countLines (r : Report) : List Text :=
  [counted "  candidates: " r.candidates, counted "  indexed: " r.indexed]
    ++ countedIfAny "  failed: " r.failed ++ countedIfAny "  remaining: " r.remaining
    ++ [counted "  pruned entries: " r.prunedEntries, counted "  commits: " r.commits]

def lines (r : Report) : List Text :=
  match r.status with
  | .upToDate => ["reindex: index is up to date".toList]
  | .completed => "reindex: completed".toList :: r.countLines
  | .paused => "reindex: paused (run again to continue)".toList :: r.countLines

end MailIndex.Reindex.Report
