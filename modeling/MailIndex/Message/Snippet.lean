import MailIndex.Text.Blank

/-!
# Snippets

A preview of a body: its words with single spaces between them, cut after a number of characters.
-/

namespace MailIndex.Snippet

open Text

def collapsed (body : Text) : Text := joined [' '] (words body)

/-- The preview of a body in at most `limit` characters, with dots after it when it is cut. -/
def ofBody (body : Text) (limit : Nat) : Text :=
  let whole := collapsed body
  if whole.length ≤ limit then whole else trimEnd (whole.take limit) ++ "...".toList

end MailIndex.Snippet
