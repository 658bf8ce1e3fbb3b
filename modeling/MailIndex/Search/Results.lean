import MailIndex.Search.Condition
import MailIndex.Search.Request
import MailIndex.Store.Statement

/-!
# Search results

The full list of results of a search, in order, and the page of it that is shown. A search with
terms has one result for every entry that matches; a search without them has one for every
document.
-/

namespace MailIndex

open Match

/-- A document that has been found, with its rank if the search has terms. -/
structure Found where
  document : Document
  rank : Nat
  deriving DecidableEq, Repr

namespace Found

/-- By date, documents without one last, and by descending number where dates are equal. -/
def datedBefore (earlier : Text → Text → Bool) (a b : Found) : Bool :=
  match a.document.eventDate, b.document.eventDate with
  | some x, some y => earlier x y || (x == y && b.document.seq ≤ a.document.seq)
  | some _, none => true
  | none, some _ => false
  | none, none => b.document.seq ≤ a.document.seq

def listedBefore : SortOrder → Found → Found → Bool
  | .relevance, a, b =>
    b.rank < a.rank || (a.rank = b.rank && b.document.seq ≤ a.document.seq)
  | .newestFirst, a, b => datedBefore (fun x y => y < x) a b
  | .oldestFirst, a, b => datedBefore (fun x y => x < y) a b

end Found

structure Hit where
  id : Text
  subject : Option Text
  senderDisplay : Option Text
  eventDate : Option Text
  snippet : Option Text
  deriving DecidableEq, Repr

def Hit.ofDocument (d : Document) : Hit :=
  ⟨d.id, d.derived.map (·.subject), d.derived.map (·.senderDisplay), d.eventDate,
    d.derived.map (·.snippet)⟩

structure Page where
  hits : List Hit
  /-- Whether results come after the page. -/
  hasMore : Bool
  effectiveSort : SortOrder
  deriving DecidableEq, Repr

inductive SearchError where
  | query (e : Query.Error)
  | storage (f : Failure)
  deriving DecidableEq, Repr

def SearchError.message : SearchError → Text
  | .query e => e.message
  | .storage f => "storage error: ".toList ++ f.message

namespace Search

/-- Whether a document may be shown: it has been indexed, and satisfies all that is asked of it
apart from terms. -/
def admits (r : SearchRequest) (c : SearchConfig) (q : Query) (d : Document) : Bool :=
  d.indexedAt.isSome
    && r.account.all (fun account => d.account == some account)
    && (r.wantsUndated c || d.eventDate.isSome)
    && q.predicates.all (·.selects d)

def documentOf? (s : Store) (entry : Nat) : Option Document := do
  let row ← s.entries.find? (·.id = entry)
  s.findSeq? row.docSeq

def matching (s : Store) (e : Expression) : List Found :=
  let weights := s.index.weights e
  (s.index.rows.filter fun row => e.selects row.text).filterMap fun row =>
    (documentOf? s row.id).map fun d => ⟨d, s.index.rank e weights row⟩

def everything (s : Store) : Option Expression → List Found
  | some e => matching s e
  | none => s.documents.map fun d => ⟨d, 0⟩

def results (s : Store) (c : SearchConfig) (r : SearchRequest) (q : Query)
    (e : Option Expression) : List Found :=
  ((everything s e).filter fun found => admits r c q found.document).mergeSort
    (Found.listedBefore (r.effectiveSort c q))

def tablesFor (q : Query) : List Table :=
  if q.hasTerms then [.fullText, .entries, .documents] else [.documents]

/-- The depths of the conditions of a search, in the order in which they are joined: that the index
matches, that the document has been indexed, and what else is asked of its columns. -/
def conditionDepths (r : SearchRequest) (c : SearchConfig) (q : Query) : List Nat :=
  (if q.hasTerms then [2] else []) ++ [3] ++ (if r.account.isSome then [3] else []) ++
    (if r.wantsUndated c then [] else [3]) ++ q.predicates.map (·.depth)

/-- The depth of all that is asked of a row. With terms, what ties the three tables together comes
after the conditions. -/
def depth (r : SearchRequest) (c : SearchConfig) (q : Query) : Nat :=
  joinedDepth (conditionDepths r c q ++ if q.hasTerms then [3, 3] else [])

def expression? (q : Query) : Except Failure (Option Expression) :=
  if q.hasTerms then
    match Expression.accepted? q.expression with
    | some e => .ok (some e)
    | none => .error .badExpression
  else .ok none

/-- The page of a list of results. There is another page if more has been fetched than fits. -/
def page (c : SearchConfig) (r : SearchRequest) (q : Query) (results : List Found) : Page :=
  let size := (r.pageSize c).toNat
  let fetched := (results.drop r.skipped.toNat).take (r.fetchSize c).toNat
  { hits := (fetched.take size).map fun found => .ofDocument found.document
    hasMore := size < fetched.length
    effectiveSort := r.effectiveSort c q }

/-- Runs a parsed search. A store without documents gives an empty page at once. -/
def runParsed (s : Store) (c : SearchConfig) (r : SearchRequest) (q : Query) :
    Except Failure Page := do
  let documents ← s.needing [.documents] s.documents
  if documents.isEmpty then return ⟨[], false, r.effectiveSort c q⟩
  -- The conditions are read before the tables are looked for, and tied to them afterwards.
  withinDepth (joinedDepth (conditionDepths r c q))
  s.needing (tablesFor q) ()
  withinDepth (depth r c q)
  let e ← expression? q
  return page c r q (results s c r q e)

def run (s : Store) (c : SearchConfig) (r : SearchRequest) : Except SearchError Page :=
  match Query.parse r.query with
  | .error e => .error (.query e)
  | .ok q =>
    match runParsed s c r q with
    | .error f => .error (.storage f)
    | .ok page => .ok page

end Search

end MailIndex
