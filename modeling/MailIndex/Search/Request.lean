import MailIndex.Config.Basic
import MailIndex.Query.Parsed

/-!
# Search requests

What a search asks for, and what becomes of it under a configuration: a sort order that the search
can have, and a page within the limits.
-/

namespace MailIndex

structure SearchRequest where
  query : Text
  /-- The only account whose documents are wanted. -/
  account : Option Text
  limit : Option Int
  offset : Int
  sort : Option SortOrder
  includeUndated : Option Bool
  deriving DecidableEq, Repr

namespace SearchRequest

/-- The sort order that is applied. Relevance needs terms; without them the newest come first. -/
def effectiveSort (r : SearchRequest) (c : SearchConfig) (q : Query) : SortOrder :=
  let wanted := r.sort.getD c.defaultSort
  if wanted = .relevance ∧ !q.hasTerms then .newestFirst else wanted

/-- The number of results on a page, at least one and at most the greatest allowed. -/
def pageSize (r : SearchRequest) (c : SearchConfig) : Int :=
  max 1 (min (r.limit.getD c.defaultLimit) (max c.maxLimit 1))

/-- The number of results that are fetched for a page. One more than fits shows whether there is
another page. -/
def fetchSize (r : SearchRequest) (c : SearchConfig) : Int := r.pageSize c + 1

/-- The same number as the database is given it, in 64 bits with a sign. -/
def boundLimit (r : SearchRequest) (c : SearchConfig) : Int64 := Int64.ofInt (r.pageSize c) + 1

def skipped (r : SearchRequest) : Int := max r.offset 0

def wantsUndated (r : SearchRequest) (c : SearchConfig) : Bool :=
  r.includeUndated.getD c.includeUndated

end SearchRequest

end MailIndex
