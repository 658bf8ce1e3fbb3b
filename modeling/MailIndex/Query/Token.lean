import MailIndex.Query.Field

/-!
# Search tokens

What a search is made of: words, quoted phrases, excluded terms, filters, OR, and parentheses.
-/

namespace MailIndex.Query

inductive Token where
  | word (value : Text)
  | phrase (value : Text)
  | exclusion (value : Text)
  | filter (field : Field) (value : Text) (negated : Bool)
  | or
  | opening
  | closing
  deriving DecidableEq, Repr

/-- The written form of a token, with the canonical name of a filter's field. -/
def Token.written : Token → Text
  | .word value => value
  | .phrase value => '"' :: value ++ ['"']
  | .exclusion value =>
    if '"' ∈ value then '-' :: value else '-' :: '"' :: value ++ ['"']
  | .filter field value negated =>
    (if negated then ['-'] else []) ++ field.name ++ ':' :: value
  | .or => "OR".toList
  | .opening => ['(']
  | .closing => [')']

def Token.writtenAll (tokens : List Token) : Text := [' '].intercalate (tokens.map Token.written)

end MailIndex.Query
