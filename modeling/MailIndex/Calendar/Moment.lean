import MailIndex.Calendar.Date
import MailIndex.Json.Value

/-!
# Moments

Times counted in seconds since the start of 1970. For a reader, a moment of the last month is given
by how long ago it was, and any other by its date and time of day.
-/

namespace MailIndex.Calendar

/-- The date with a given day number. Years are counted from March, so that the leap day comes
last, and taken apart into cycles of 400, 100 and 4 years. -/
def Date.ofDayNumber (n : Int) : Date :=
  let days := n + 306
  let cycle := days / 146097
  let inCycle := (days % 146097).toNat
  let yearInCycle := (inCycle - inCycle / 1460 + inCycle / 36524 - inCycle / 146096) / 365
  let inYear := inCycle - (365 * yearInCycle + yearInCycle / 4 - yearInCycle / 100)
  let fromMarch := (5 * inYear + 2) / 153
  let day := inYear - (153 * fromMarch + 2) / 5 + 1
  let year := cycle * 400 + yearInCycle
  if fromMarch < 10 then ⟨year, fromMarch + 3, day⟩ else ⟨year + 1, fromMarch - 9, day⟩

/-- The day number of the first of January 1970. -/
def epochDay : Int := 719162

def dateAt (seconds : Int) : Date := Date.ofDayNumber (seconds / 86400 + epochDay)

/-- The form YYYY-MM-DD HH:MM, or the bare number for a moment outside the calendar. -/
def momentText (seconds : Int) : Text :=
  let date := dateAt seconds
  let minute := (seconds % 86400).toNat / 60
  if date.inRange then
    date.written ++ ' ' :: padded 2 (minute / 60) ++ ':' :: padded 2 (minute % 60)
  else Json.Value.decimal seconds

def unitsAgo (n : Nat) (unit : String) : Text :=
  Text.Decimal.digits n ++ ' ' :: unit.toList ++ (if n = 1 then [] else ['s']) ++ " ago".toList

def seenFrom (now seconds : Int) : Text :=
  let elapsed := (now - seconds).toNat
  if now < seconds then momentText seconds
  else if elapsed < 60 then "just now".toList
  else if elapsed < 3600 then unitsAgo (elapsed / 60) "min"
  else if elapsed < 86400 then unitsAgo (elapsed / 3600) "hour"
  else if elapsed < 86400 * 30 then unitsAgo (elapsed / 86400) "day"
  else momentText seconds

example : Date.ofDayNumber 0 = ⟨1, 1, 1⟩ := by decide
example : Date.ofDayNumber 719162 = ⟨1970, 1, 1⟩ := by decide
example : Date.ofDayNumber (Date.mk 2024 2 29).dayNumber = ⟨2024, 2, 29⟩ := by decide
example : Date.ofDayNumber (Date.mk (-4) 12 31).dayNumber = ⟨-4, 12, 31⟩ := by decide
example : momentText 0 = "1970-01-01 00:00".toList := by decide
example : seenFrom 3600 0 = "1 hour ago".toList := by decide

end MailIndex.Calendar
