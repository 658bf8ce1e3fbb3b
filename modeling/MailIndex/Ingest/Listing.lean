import MailIndex.Ingest.Basic
import MailIndex.Text.Decimal.Grouped

/-!
# Listing an ingestion

What became of the files below a root, as lines for a reader.
-/

namespace MailIndex.Ingest

open Text.Decimal (digits)

def Summary.lines (root : Text) (s : Summary) : List Text :=
  ["ingest ".toList ++ root, "  scanned: ".toList ++ digits s.scanned ++ " files".toList,
    "  new: ".toList ++ digits s.new, "  changed: ".toList ++ digits s.changed,
    "  unchanged: ".toList ++ digits s.unchanged]
    ++ (if s.invalid = 0 then [] else ["  invalid: ".toList ++ digits s.invalid])
    ++ ["ok".toList]

end MailIndex.Ingest
