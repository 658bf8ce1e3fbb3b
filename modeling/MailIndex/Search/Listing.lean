import MailIndex.Json.Value
import MailIndex.Search.Results
import MailIndex.Text.Layout

/-!
# Listing results

A page of results as lines for a reader, or as JSON. The results are numbered on from the offset of
the request, and a page that is not the last one says at which offset the next one starts.
-/

namespace MailIndex

namespace Hit

/-- The day of a result: the first ten bytes of its date. -/
def day (h : Hit) : Text :=
  match h.eventDate with
  | some date => (Text.firstBytes? 10 date).getD date
  | none => "(undated)".toList

def lines (number : Int) (h : Hit) : List Text :=
  let title := h.subject.getD "(no subject)".toList
  let excerpt := (h.snippet.filter (!·.isEmpty)).map fun snippet =>
    "    excerpt: \"".toList ++ snippet ++ ['"']
  [Json.Value.decimal number ++ ". ".toList ++ h.day ++ " / ".toList ++ title]
    ++ (h.senderDisplay.map ("    from: ".toList ++ ·)).toList
    ++ excerpt.toList
    ++ ["    id: ".toList ++ h.id, []]

def toJson (h : Hit) : Json.Value :=
  .object [("id".toList, .text h.id), ("subject".toList, .ofOption h.subject),
    ("sender_display".toList, .ofOption h.senderDisplay),
    ("event_date".toList, .ofOption h.eventDate), ("snippet".toList, .ofOption h.snippet)]

end Hit

namespace Page

def numbered (r : SearchRequest) (p : Page) : List (Int × Hit) :=
  p.hits.mapIdx fun place hit => (r.offset + place + 1, hit)

def nextOffset? (r : SearchRequest) (p : Page) : Option Int :=
  if p.hasMore then some (r.offset + p.hits.length) else none

/-- Whether relevance was asked for and could not be had. -/
def lacksRelevance (r : SearchRequest) (p : Page) : Bool :=
  r.sort = some .relevance && p.effectiveSort ≠ .relevance

def lines (r : SearchRequest) (p : Page) : List Text :=
  if p.hits.isEmpty then ["No results.".toList]
  else
    (p.numbered r).flatMap (fun (number, hit) => hit.lines number)
      ++ ((p.nextOffset? r).map fun offset =>
        "More results available: --offset ".toList ++ Json.Value.decimal offset).toList
      ++ if p.lacksRelevance r then
        ["(sorted by date: relevance needs search terms)".toList]
      else []

def toJson (p : Page) : Json.Value :=
  .object [("hits".toList, .list (p.hits.map Hit.toJson)), ("has_more".toList, .bool p.hasMore),
    ("effective_sort".toList, .text p.effectiveSort.name)]

end Page

end MailIndex
