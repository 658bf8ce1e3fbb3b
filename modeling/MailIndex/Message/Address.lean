import MailIndex.Text.Blank
import MailIndex.Text.LowerCase

/-!
# Addresses

A displayed sender or recipient reduced to a bare address in lower case. A list of recipients is
kept between commas, so that an address is found in it only as a whole.
-/

namespace MailIndex.Address

open Text

/-- The text between the last `<` and the last `>`, if they stand in this order. -/
def bracketed? (value : Text) : Option Text :=
  let backward := value.reverse
  let afterClosing := backward.takeWhile (· ≠ '>')
  let beforeClosing := (backward.dropWhile (· ≠ '>')).drop 1
  if '<' ∉ afterClosing ∧ '<' ∈ beforeClosing then
    some (beforeClosing.takeWhile (· ≠ '<')).reverse
  else none

/-- The address in a displayed sender or recipient: what stands in angle brackets, else the whole
value. An address contains an at sign and no white space. -/
def ofDisplay? (display : Text) : Option Text :=
  let value := trim display
  let candidate := trim ((bracketed? value).getD value)
  if '@' ∈ candidate ∧ !candidate.any isBlank then some (lower candidate) else none

def consFirst (c : Char) : List Text → List Text
  | [] => [[c]]
  | part :: parts => (c :: part) :: parts

/-- The parts of a list of recipients: commas and semicolons separate, except between quotes. -/
def splitList (inQuotes : Bool) : Text → List Text
  | [] => [[]]
  | c :: rest =>
    if (c = ',' ∨ c = ';') ∧ !inQuotes then [] :: splitList inQuotes rest
    else consFirst c (splitList (if c = '"' then !inQuotes else inQuotes) rest)

theorem splitList_ne_nil (inQuotes : Bool) (t : Text) : splitList inQuotes t ≠ [] := by
  cases t with
  | nil => simp [splitList]
  | cons c rest =>
    unfold splitList
    split
    · simp
    · unfold consFirst
      split <;> simp

def allOf (recipients : Text) : List Text := (splitList false recipients).filterMap ofDisplay?

/-- Addresses between commas, a comma at either end; none if there are no addresses. -/
def fencedList? (addresses : List Text) : Option Text :=
  if addresses.isEmpty then none else some (',' :: joined [','] addresses ++ [','])

def normalizeList? (recipients : Text) : Option Text := fencedList? (allOf recipients)

theorem normalizeList?_nil : normalizeList? [] = none := by decide

end MailIndex.Address
