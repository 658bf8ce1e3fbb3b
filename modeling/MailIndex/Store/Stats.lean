import MailIndex.Store.Statement
import MailIndex.Text.Order

/-!
# Statistics

How many documents are fresh, stale or not indexed, in all and for every account. Accounts with
more documents come first, then those with the lesser name.
-/

namespace MailIndex

structure AccountStats where
  account : Text
  documents : Nat
  fresh : Nat
  lastIndexed : Option Int
  deriving DecidableEq, Repr

structure Stats where
  documents : Nat
  fresh : Nat
  /-- Indexed before, and changed since. -/
  stale : Int
  unindexed : Nat
  indexEntries : Nat
  accounts : List AccountStats
  deriving DecidableEq, Repr

namespace Stats

/-- How many documents are fresh; 0 where there is nothing to add up. -/
def freshIn (documents : List Document) : Nat :=
  (Ternary.sum (documents.map (·.freshness))).getD 0

def unindexedIn (documents : List Document) : Nat :=
  (Ternary.sum (documents.map fun d => .isNull d.indexedHash)).getD 0

def noAccount : Text := "(none)".toList

def accountsOf (documents : List Document) : List (Option Text) :=
  (documents.map (·.account)).eraseDups

def later (a b : Option Int) : Option Int :=
  match a, b with
  | some a, some b => some (max a b)
  | a, b => a <|> b

def ofAccount (documents : List Document) (account : Option Text) : AccountStats :=
  let own := documents.filter (·.account = account)
  { account := account.getD noAccount
    documents := own.length
    fresh := freshIn own
    lastIndexed := (own.map (·.indexedAt)).foldl later none }

def listedBefore (a b : AccountStats) : Bool :=
  b.documents < a.documents || (a.documents = b.documents && Text.le a.account b.account)

def ofStore (s : Store) : Stats :=
  let fresh := freshIn s.documents
  let unindexed := unindexedIn s.documents
  { documents := s.documents.length
    fresh
    stale := (s.documents.length : Int) - fresh - unindexed
    unindexed
    indexEntries := s.entries.length
    accounts := ((accountsOf s.documents).map (ofAccount s.documents)).mergeSort listedBefore }

end Stats

def Statement.stats : Statement Stats := Statement.read [.documents, .entries] Stats.ofStore

end MailIndex
