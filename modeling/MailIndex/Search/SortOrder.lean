import MailIndex.Text.Range

/-!
# Sort orders

The orders in which search results can be asked for.
-/

namespace MailIndex

inductive SortOrder where
  /-- Best match first; only for searches with terms. -/
  | relevance
  | newestFirst
  | oldestFirst
  deriving DecidableEq, Repr

namespace SortOrder

def name : SortOrder → Text
  | .relevance => "relevance".toList
  | .newestFirst => "date_desc".toList
  | .oldestFirst => "date_asc".toList

def all : List SortOrder := [.relevance, .newestFirst, .oldestFirst]

def ofCanonicalName? (t : Text) : Option SortOrder := all.find? fun s => s.name = t

/-- The order with a given name; two of the orders have a second, plainer name. -/
def ofName? (t : Text) : Option SortOrder :=
  if t = "newest".toList then some .newestFirst
  else if t = "oldest".toList then some .oldestFirst
  else ofCanonicalName? t

theorem ofCanonicalName?_name (s : SortOrder) : ofCanonicalName? s.name = some s := by
  cases s <;> decide

def unknownMessage (t : Text) : Text :=
  "unknown sort '".toList ++ t ++ "'; expected relevance, date_desc or date_asc".toList

end SortOrder

end MailIndex
