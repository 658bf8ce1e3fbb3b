import MailIndex.Text.Blank
import MailIndex.Text.Split

/-!
# Paths

A path is the list of names on the way from the top. A written path is taken from a base unless it
starts with a slash.
-/

namespace MailIndex

abbrev Path := List Text

namespace Path

def step (p : Path) (part : Text) : Path :=
  if part.isEmpty ∨ part = ['.'] then p
  else if part = ['.', '.'] then p.dropLast
  else p ++ [part]

def resolve (base : Path) (written : Text) : Path :=
  (Text.split '/' written).foldl step (if written.head? = some '/' then [] else base)

def joined (p : Path) : Text := Text.joined ['/'] p

/-- What follows `base` in a path, if it leads through there. -/
def below? (base p : Path) : Option Path :=
  if base.isPrefixOf p then some (p.drop base.length) else none

end Path

end MailIndex
