import MailIndex.Calendar.Date
import MailIndex.Text.LowerCase
import MailIndex.Text.Scan

/-!
# Event dates

The date of a message, brought to one form that sorts as text. Four written forms are understood:
the timestamps of RFC 3339 and of RFC 2822, a date with a time of day, and a bare date. A time with
a zone is converted to UTC; a time without one is kept.
-/

namespace MailIndex.Calendar

open Text

inductive EventDate where
  | moment (date : Date) (time : Time)
  | day (date : Date)
  deriving DecidableEq, Repr

def EventDate.written : EventDate → Text
  | .moment date time => date.written ++ 'T' :: time.written
  | .day date => date.written

/-- A local time, `offset` minutes ahead of UTC, as a time in UTC. Offsets stay below a day, so the
date moves by one day at most. -/
def EventDate.ofLocal? (date : Date) (time : Time) (offset : Int) : Option EventDate :=
  if offset ≤ -1440 ∨ 1440 ≤ offset then none
  else
    let minutes : Int := time.hour * 60 + time.minute - offset
    let date := if minutes < 0 then date.previous else if minutes < 1440 then date else date.next
    let minutes := (minutes % 1440).toNat
    if date.inRange then some (.moment date ⟨minutes / 60, minutes % 60, time.second⟩) else none

/-- The minutes of a zone given as a sign and hours and minutes of two digits each, with
`separator` between them. -/
def readOffset? (signs : List (Char × Int)) (separator : Text) (t : Text) :
    Option (Int × Text) := do
  let sign ← t.head?
  let factor ← signs.lookup sign
  let (hours, t) ← readDigits? 2 2 (t.drop 1)
  if !separator.isPrefixOf t then none
  else
    let (minutes, t) ← readDigits? 2 2 (t.drop separator.length)
    if minutes < 60 then some (factor * (hours * 60 + minutes), t) else none

/-- A plus sign, a hyphen, and the minus sign of typography. -/
def isoSigns : List (Char × Int) := [('+', 1), ('-', -1), ('\u2212', -1)]

def mailSigns : List (Char × Int) := [('+', 1), ('-', -1)]

def skipFraction? (t : Text) : Option Text :=
  match t with
  | '.' :: rest => (readNatural? rest).map (·.2)
  | _ => some t

/-- A timestamp of RFC 3339, such as `2024-01-15T09:30:00+02:00`. -/
def ofInternet? (t : Text) : Option EventDate := do
  let (year, t) ← readDigits? 4 4 t
  let (month, t) ← readDigits? 2 2 (← readChar? '-' t)
  let (day, t) ← readDigits? 2 2 (← readChar? '-' t)
  let divider ← t.head?
  if divider ≠ 'T' ∧ divider ≠ 't' ∧ divider ≠ ' ' then none
  else
    let (hour, t) ← readDigits? 2 2 (t.drop 1)
    let (minute, t) ← readDigits? 2 2 (← readChar? ':' t)
    let (second, t) ← readDigits? 2 2 (← readChar? ':' t)
    let t ← skipFraction? t
    let (offset, t) ←
      if t.head? = some 'Z' ∨ t.head? = some 'z' then some (0, t.drop 1)
      else readOffset? isoSigns [':'] t
    if !t.isEmpty then none
    else EventDate.ofLocal? (← Date.of? year month day) (← Time.of? hour minute second) offset

def weekdayNames : List Text :=
  ["mon", "tue", "wed", "thu", "fri", "sat", "sun"].map String.toList

def monthNames : List Text :=
  ["jan", "feb", "mar", "apr", "may", "jun", "jul", "aug", "sep", "oct", "nov", "dec"].map
    String.toList

/-- The place of the name of three letters at the start of a text, in any letter case. -/
def readName? (names : List Text) (t : Text) : Option (Nat × Text) :=
  (names.idxOf? (asciiLower (t.take 3))).map (·, t.drop 3)

/-- A weekday and a comma. A weekday without its comma is an error. -/
def readWeekday? (t : Text) : Option (Option Nat × Text) :=
  match readName? weekdayNames t with
  | none => some (none, t)
  | some (weekday, rest) => (readChar? ',' rest).map (some weekday, ·)

/-- A year in two, three or more digits: two digits lie between 1950 and 2049, three count from
1900. -/
def readMailYear? (t : Text) : Option (Int × Text) := do
  let (year, rest) ← readNatural? t
  match t.length - rest.length with
  | 0 | 1 => none
  | 2 => some (if year < 50 then year + 2000 else year + 1900, rest)
  | 3 => some (year + 1900, rest)
  | _ => some (year, rest)

def zoneNames : List (Text × Int) := [
  ("gmt".toList, 0), ("ut".toList, 0), ("z".toList, 0), ("edt".toList, -4), ("est".toList, -5),
  ("cdt".toList, -5), ("cst".toList, -6), ("mdt".toList, -6), ("mst".toList, -7),
  ("pdt".toList, -7), ("pst".toList, -8)]

/-- A zone of RFC 2822. A single letter other than J counts as UTC. -/
def readZone? (t : Text) : Option (Int × Text) :=
  let name := asciiLower (t.takeWhile Char.isAlpha)
  if name.isEmpty then readOffset? mailSigns [] t
  else
    match zoneNames.lookup name with
    | some hours => some (hours * 60, t.drop name.length)
    | none => if name.length = 1 ∧ name ≠ ['j'] then some (0, t.drop 1) else none

/-- The text after a comment whose opening parenthesis has been read, `depth` further ones being
open. A backslash takes the next character out of count. -/
def skipComment? (depth : Nat) : Text → Option Text
  | [] => none
  | ['\\'] => none
  | '\\' :: _ :: rest => skipComment? depth rest
  | '(' :: rest => skipComment? (depth + 1) rest
  | ')' :: rest =>
    match depth with
    | 0 => some rest
    | depth + 1 => skipComment? depth rest
  | _ :: rest => skipComment? depth rest

/-- The text after any number of comments; `fuel` bounds their number. -/
def skipComments (fuel : Nat) (t : Text) : Text :=
  match fuel, trimStart t with
  | fuel + 1, '(' :: rest =>
    match skipComment? 0 rest with
    | some t => skipComments fuel t
    | none => t
  | _, _ => t

/-- A timestamp of RFC 2822, such as `Mon, 15 Jan 2024 09:30:00 +0200`. -/
def ofMail? (t : Text) : Option EventDate := do
  let (weekday, t) ← readWeekday? (trimStart t)
  let (day, t) ← readDigits? 1 2 (trimStart t)
  let (month, t) ← readName? monthNames (← readBlanks? t)
  let (year, t) ← readMailYear? (← readBlanks? t)
  let (hour, t) ← readDigits? 2 2 (← readBlanks? t)
  let (minute, t) ← readDigits? 2 2 (trimStart (← readChar? ':' (trimStart t)))
  let (second, t) ←
    match readChar? ':' (trimStart t) with
    | some t => readDigits? 2 2 t
    | none => some (0, t)
  let (offset, t) ← readZone? (← readBlanks? t)
  if !(skipComments t.length t).isEmpty then none
  else
    let date ← Date.of? year (month + 1) day
    if weekday.any (· ≠ date.weekday) then none
    else EventDate.ofLocal? date (← Time.of? hour minute second) offset

/-- A year of at most four digits, or of any number of digits after a sign. -/
def readYear? (t : Text) : Option (Int × Text) :=
  match trimStart t with
  | '-' :: rest => (readNatural? rest).map fun (n, rest) => (-(n : Int), rest)
  | '+' :: rest => (readNatural? rest).map fun (n, rest) => ((n : Int), rest)
  | t => (readDigits? 1 4 t).map fun (n, rest) => ((n : Int), rest)

/-- A number of one or two digits after white space. -/
def readShort? (t : Text) : Option (Nat × Text) := readDigits? 1 2 (trimStart t)

def readDate? (t : Text) : Option (Date × Text) := do
  let (year, t) ← readYear? t
  let (month, t) ← readShort? (← readChar? '-' t)
  let (day, t) ← readShort? (← readChar? '-' t)
  some (← Date.of? year month day, t)

/-- A date, white space or a T, and a time of day. -/
def ofDateTime? (t : Text) : Option EventDate := do
  let (date, t) ← readDate? t
  let t := if t.head? = some 'T' then t.drop 1 else t
  let (hour, t) ← readShort? t
  let (minute, t) ← readShort? (← readChar? ':' t)
  let (second, t) ← readShort? (← readChar? ':' t)
  if t.isEmpty then some (.moment date (← Time.of? hour minute second)) else none

def ofDay? (t : Text) : Option EventDate := do
  let (date, t) ← readDate? t
  if t.isEmpty then some (.day date) else none

/-- The event date that a text denotes; the first form that fits decides. -/
def EventDate.ofText? (raw : Text) : Option EventDate :=
  let t := trim raw
  ofInternet? t <|> ofMail? t <|> ofDateTime? t <|> ofDay? t

def normalizeEventDate? (raw : Text) : Option Text := (EventDate.ofText? raw).map (·.written)

end MailIndex.Calendar
