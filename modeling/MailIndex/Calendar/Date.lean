import MailIndex.Text.Decimal.Grouped

/-!
# Dates

Days of the proleptic Gregorian calendar, with astronomical year numbers.
-/

namespace MailIndex.Calendar

structure Date where
  year : Int
  month : Nat
  day : Nat
  deriving DecidableEq, Repr

def isLeapYear (year : Int) : Bool := year % 4 = 0 && (year % 100 ≠ 0 || year % 400 = 0)

def daysInMonth (year : Int) (month : Nat) : Nat :=
  if month = 2 then (if isLeapYear year then 29 else 28)
  else if month = 4 ∨ month = 6 ∨ month = 9 ∨ month = 11 then 30
  else 31

def Date.exists (d : Date) : Bool :=
  1 ≤ d.month && d.month ≤ 12 && 1 ≤ d.day && d.day ≤ daysInMonth d.year d.month

def Date.inRange (d : Date) : Bool := -262143 ≤ d.year && d.year ≤ 262142

def Date.of? (year : Int) (month day : Nat) : Option Date :=
  let d : Date := ⟨year, month, day⟩
  if d.exists && d.inRange then some d else none

def Date.next (d : Date) : Date :=
  if d.day < daysInMonth d.year d.month then { d with day := d.day + 1 }
  else if d.month < 12 then ⟨d.year, d.month + 1, 1⟩
  else ⟨d.year + 1, 1, 1⟩

def Date.previous (d : Date) : Date :=
  if 1 < d.day then { d with day := d.day - 1 }
  else if 1 < d.month then ⟨d.year, d.month - 1, daysInMonth d.year (d.month - 1)⟩
  else ⟨d.year - 1, 12, 31⟩

def daysBeforeMonth (year : Int) : Nat → Nat
  | 0 => 0
  | month + 1 => daysBeforeMonth year month + if month = 0 then 0 else daysInMonth year month

/-- The number of days since the first of January of the year 1, which is day 0. -/
def Date.dayNumber (d : Date) : Int :=
  let years := d.year - 1
  years * 365 + years / 4 - years / 100 + years / 400
    + daysBeforeMonth d.year d.month + d.day - 1

/-- The day of the week, Monday being 0. -/
def Date.weekday (d : Date) : Nat := (d.dayNumber % 7).toNat

def padded (width n : Nat) : Text :=
  let ds := Text.Decimal.digits n
  List.replicate (width - ds.length) '0' ++ ds

/-- A year in at least four digits, with a sign if it has more than four or lies before year 0. -/
def writtenYear (year : Int) : Text :=
  if year < 0 then '-' :: padded 4 year.natAbs
  else if 9999 < year then '+' :: padded 4 year.natAbs
  else padded 4 year.natAbs

def Date.written (d : Date) : Text :=
  writtenYear d.year ++ '-' :: padded 2 d.month ++ '-' :: padded 2 d.day

/-- A time of day to the second. The second 60 is a leap second. -/
structure Time where
  hour : Nat
  minute : Nat
  second : Nat
  deriving DecidableEq, Repr

def Time.of? (hour minute second : Nat) : Option Time :=
  if hour < 24 ∧ minute < 60 ∧ second ≤ 60 then some ⟨hour, minute, second⟩ else none

/-- The form HH:MM:SS. -/
def Time.written (t : Time) : Text :=
  padded 2 t.hour ++ ':' :: padded 2 t.minute ++ ':' :: padded 2 t.second

example : (Date.mk 2024 1 15).weekday = 0 := by decide
example : (Date.mk 1970 1 1).dayNumber = 719162 := by decide
example : (Date.mk 2024 2 29).next = ⟨2024, 3, 1⟩ := by decide
example : (Date.mk 2023 1 1).previous = ⟨2022, 12, 31⟩ := by decide

end MailIndex.Calendar
