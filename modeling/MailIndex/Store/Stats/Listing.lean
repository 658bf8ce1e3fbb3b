import MailIndex.Calendar.Moment
import MailIndex.Store.Stats
import MailIndex.Text.Decimal.Fixed
import MailIndex.Text.Layout

/-!
# Listing statistics

The statistics of a store as lines for a reader, with a table of the accounts if there are any.
-/

namespace MailIndex

open Text (flushLeft flushRight)
open Text.Decimal (digits)

def accountLine (account documents fresh indexed : Text) : Text :=
  "  ".toList ++ flushLeft 24 account ++ ' ' :: flushRight 8 documents ++ ' ' :: flushRight 8 fresh
    ++ "   ".toList ++ indexed

def AccountStats.line (now : Int) (a : AccountStats) : Text :=
  accountLine a.account (digits a.documents) (digits a.fresh)
    (match a.lastIndexed with
      | some time => Calendar.seenFrom now time
      | none => "never".toList)

namespace Stats

def accountTable (now : Int) (accounts : List AccountStats) : List Text :=
  [[], "  By account:".toList,
    accountLine "ACCOUNT".toList "DOCS".toList "FRESH".toList "LAST INDEXED".toList,
    "  ".toList ++ List.replicate 64 '-'] ++ accounts.map (·.line now)

def freshPercent (s : Stats) : Nat := s.fresh * 100 / s.documents

/-- The lines for a reader; `database` is the path of the store and `size` its size in bytes. -/
def lines (database : Text) (size : Nat) (now : Int) (s : Stats) : List Text :=
  ["inboxdb — Database Stats".toList, "========================".toList, [],
    "  Database:    ".toList ++ database,
    "  Size:        ".toList ++ Text.Decimal.byteSize size, [],
    "  Documents:   ".toList ++ digits s.documents,
    "  Fresh:       ".toList ++ digits s.fresh ++ " / ".toList ++ digits s.documents ++ " (".toList
      ++ digits s.freshPercent ++ "%)".toList,
    "  Stale:       ".toList ++ Json.Value.decimal s.stale,
    "  Unindexed:   ".toList ++ digits s.unindexed,
    "  Index entries: ".toList ++ digits s.indexEntries]
    ++ (if s.accounts.isEmpty then [] else accountTable now s.accounts)
    ++ [[]]

end Stats

end MailIndex
