import MailIndex.Query.Field

/-!
# Rejected searches

The reasons for which a search is turned down, and the text that the user sees for each.
-/

namespace MailIndex.Query

inductive Error where
  /-- A minus sign before an opening parenthesis. -/
  | excludedGroup
  /-- A quote without its partner; the text is all that follows it. -/
  | unclosedQuote (rest : Text)
  /-- A filter with nothing after its colon. -/
  | emptyValue (name : Text) (negated : Bool)
  | startsWithOr
  | endsWithOr
  | consecutiveOr
  | unmatchedClosing
  | unclosedGroup
  /-- An OR without a search term on one of its sides. -/
  | orNeedsTerms
  /-- An OR beside a filter that is answered by a column. -/
  | orWithFilter
  /-- An exclusion without a search term in its group. -/
  | exclusionNeedsTerm
  | invalidDate (field : Field) (value : Text)
  | unsupportedHas (value : Text)
  deriving DecidableEq, Repr

/-- The two families of errors: the shape of the search, or the value of one filter. -/
inductive Error.Kind where
  | shape
  | filterValue
  deriving DecidableEq, Repr

def Error.kind : Error → Error.Kind
  | .invalidDate .. | .unsupportedHas .. => .filterValue
  | _ => .shape

def previewLength : Nat := 20

def preview (rest : Text) : Text :=
  rest.take previewLength ++ if rest.length > previewLength then "...".toList else []

def Error.message : Error → Text
  | .excludedGroup => "Cannot exclude a group; exclude terms individually".toList
  | .unclosedQuote rest => "Unclosed quote after '".toList ++ preview rest ++ "'".toList
  | .emptyValue name negated =>
    "Empty value for '".toList ++ (if negated then "-".toList else []) ++ name
      ++ ":' filter".toList
  | .startsWithOr => "Search cannot start with OR".toList
  | .endsWithOr => "Search cannot end with OR".toList
  | .consecutiveOr => "Invalid: consecutive OR operators".toList
  | .unmatchedClosing => "Unmatched closing parenthesis".toList
  | .unclosedGroup => "Unclosed parenthesis".toList
  | .orNeedsTerms => "OR needs a search term on both sides".toList
  | .orWithFilter =>
    "OR can only join search terms; filters like label: or before: apply to every result".toList
  | .exclusionNeedsTerm =>
    "Excluded terms need a search term to exclude from, e.g. 'invoice -draft'".toList
  | .invalidDate field value =>
    "Invalid date format for '".toList ++ field.name ++ ":': ".toList ++ value
  | .unsupportedHas value =>
    "Unsupported value for 'has:': ".toList ++ value ++ " (try has:attachment)".toList

end MailIndex.Query
