import MailIndex.Store.Session

/-!
# Repairs

A repair takes superseded and orphaned entries out. It works through the owners of several entries,
then through the entries without a document, and may be cancelled between any two of them. The
orphans are those of what is durable at that moment.
-/

namespace MailIndex.Check

structure RepairSummary where
  prunedEntries : Nat
  removedOrphans : Nat
  /-- Whether it was cancelled before everything was done. -/
  interrupted : Bool
  deriving DecidableEq, Repr

structure Repair where
  session : Session
  /-- How many owners and orphans have been dealt with. -/
  done : Nat
  summary : RepairSummary
  deriving DecidableEq, Repr

namespace Repair

def commitInterval : Nat := 500

def start (s : Store) : Repair := ⟨.start s, 0, ⟨0, 0, false⟩⟩

def dealtWith (r : Repair) (s : Store) (summary : RepairSummary) : Repair :=
  ⟨(r.session.write s).finishOne commitInterval, r.done + 1, summary⟩

def interrupt (r : Repair) : Repair :=
  { r with summary := { r.summary with interrupted := true } }

abbrev Outcome := Except Failure Unit × Repair

def pruneAll (cancelled : Nat → Bool) : List Nat → Repair → Outcome
  | [], r => (.ok (), r)
  | seq :: rest, r =>
    if cancelled r.done then (.ok (), r.interrupt)
    else
      match Statement.prune seq r.session.view with
      | (.error f, _) => (.error f, r)
      | (.ok count, s) =>
        pruneAll cancelled rest
          (r.dealtWith s { r.summary with prunedEntries := r.summary.prunedEntries + count })

def removeAll (cancelled : Nat → Bool) : List Nat → Repair → Outcome
  | [], r => (.ok (), r)
  | entry :: rest, r =>
    if cancelled r.done then (.ok (), r.interrupt)
    else
      match Statement.deleteEntry entry r.session.view with
      | (.error f, _) => (.error f, r)
      | (.ok (), s) =>
        removeAll cancelled rest
          (r.dealtWith s { r.summary with removedOrphans := r.summary.removedOrphans + 1 })

def duplicates (cancelled : Nat → Bool) (r : Repair) : Outcome :=
  match Statement.duplicates r.session.durable with
  | (.error f, _) => (.error f, r)
  | (.ok found, _) => pruneAll cancelled (found.map (·.1)) r

def orphans (cancelled : Nat → Bool) (r : Repair) : Outcome :=
  if r.summary.interrupted then (.ok (), r)
  else
    match Statement.orphans r.session.durable with
    | (.error f, _) => (.error f, r)
    | (.ok found, _) => removeAll cancelled (found.map (·.id)) r

def run (cancelled : Nat → Bool) (s : Store) : Outcome :=
  match duplicates cancelled (start s) with
  | (.ok (), r) => orphans cancelled r
  | failed => failed

end Repair

/-- A repair of a store; `cancelled` tells whether it is found cancelled after so many units of
work. -/
def repair (cancelled : Nat → Bool) : Statement RepairSummary := fun s =>
  match Repair.run cancelled s with
  | (.ok (), r) => (.ok r.summary, r.session.commit.durable)
  | (.error f, r) => (.error f, r.session.durable)

end MailIndex.Check
