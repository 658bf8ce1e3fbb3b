import MailIndex.Match.Term
import MailIndex.Text.Alphanumeric

/-!
# Search terms

A user's word or phrase as a term of a match expression. Whatever the user typed stays inside one
term: anything that is not a plain word is written in quotes. A text without a letter or digit can
match nothing and gives no term.
-/

namespace MailIndex.Query

open Text Match

def isSearchable (text : Text) : Bool := text.any isAlphanumeric

/-- Whether a character may stand in a plain word: an ASCII letter or digit, an underscore, or any
character beyond ASCII that is not white space. -/
def isPlain (c : Char) : Bool := isBareword c && !isBlank c

def needsQuotes (text : Text) : Bool := !text.all isPlain || keywords.contains text

/-- A term together with the way it is written. It has something to look for, and what could be
misread stands in quotes. -/
structure SearchTerm extends Match.Term where
  inQuotes : Bool
  isSearchable_text : isSearchable text = true
  inQuotes_of_needsQuotes : needsQuotes text = true → inQuotes = true
  deriving DecidableEq, Repr

/-- A text and whether it ended in a star, which is taken off. -/
def splitStar (text : Text) : Text × Bool :=
  if text.getLast? = some '*' then (text.dropLast, true) else (text, false)

/-- A word as a term, restricted to a column if one is given. One star at its end leaves the last
word open. -/
def SearchTerm.ofWord? (column : Option Column) (word : Text) : Option SearchTerm :=
  let (text, starred) := splitStar word
  if h : isSearchable text then some ⟨⟨column, text, starred⟩, needsQuotes text, h, id⟩ else none

/-- A phrase as a term: always in quotes, its characters taken as they are. -/
def SearchTerm.ofPhrase? (phrase : Text) : Option SearchTerm :=
  if h : isSearchable phrase then some ⟨⟨none, phrase, false⟩, true, h, fun _ => rfl⟩ else none

def columnMark : Option Column → Text
  | some column => column.name ++ [':']
  | none => []

def SearchTerm.render (t : SearchTerm) : Text :=
  columnMark t.column ++ (if t.inQuotes then quoted t.text else t.text)
    ++ (if t.starred then ['*'] else [])

end MailIndex.Query
