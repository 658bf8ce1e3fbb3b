import MailIndex.Calendar.Date
import MailIndex.Text.Decimal.Bounded
import MailIndex.Text.Scan

/-!
# Numbers, dates and times of TOML

Each reader gives what it read and the text after it.
-/

namespace MailIndex.Toml

open Text

/-! ### Integers -/

/-- Digits of a class, a single underscore allowed between two of them. -/
def digitRun (isDigit : Char → Bool) (done : Text) : Text → Text × Text
  | '_' :: d :: rest =>
    if isDigit d then digitRun isDigit (d :: done) rest else (done.reverse, '_' :: d :: rest)
  | d :: rest =>
    if isDigit d then digitRun isDigit (d :: done) rest else (done.reverse, d :: rest)
  | [] => (done.reverse, [])

/-- At least one digit of a class, the first of them not an underscore. -/
def readDigitRun? (isDigit : Char → Bool) : Text → Option (Text × Text)
  | d :: rest => if isDigit d then some (digitRun isDigit [d] rest) else none
  | [] => none

def digitValue (c : Char) : Nat :=
  if c.isDigit then c.toNat - '0'.toNat else c.toLower.toNat - 'a'.toNat + 10

def isDigitIn (base : Nat) (c : Char) : Bool := c.isAlphanum && digitValue c < base

def valueIn (base : Nat) (ds : Text) : Nat := ds.foldl (fun n d => n * base + digitValue d) 0

def readSign : Text → Bool × Text
  | '-' :: rest => (true, rest)
  | '+' :: rest => (false, rest)
  | t => (false, t)

/-- The digits of a whole number in base ten: a zero alone, or digits that start with another. -/
def readWhole? : Text → Option (Text × Text)
  | '0' :: rest => some (['0'], rest)
  | t => readDigitRun? Char.isDigit t

def bases : List (Char × Nat) := [('x', 16), ('o', 8), ('b', 2)]

def inRange? (n : Int) : Option Int :=
  let largest : Int := Text.Decimal.largestInteger
  if -(largest + 1) ≤ n ∧ n ≤ largest then some n else none

/-- A whole number with a sign, or without one in a base of its own. -/
def readInteger? (t : Text) : Option (Int × Text) :=
  match t with
  | '0' :: mark :: rest =>
    match bases.lookup mark with
    | some base => do
      let (ds, rest) ← readDigitRun? (isDigitIn base) rest
      let n ← inRange? (valueIn base ds)
      some (n, rest)
    | none => some (0, mark :: rest)
  | t => do
    let (negative, t) := readSign t
    let (ds, rest) ← readWhole? t
    let n : Int := valueIn 10 ds
    let n ← inRange? (if negative then -n else n)
    some (n, rest)

/-! ### Numbers with a fraction or an exponent -/

/-- Whether the number written by `digits` times ten to the power `exponent` exceeds every double:
it is at least two to the power 1024 less half a unit in the last place. -/
def exceedsDoubles (ds : Text) (exponent : Int) : Bool :=
  let ds := ds.dropWhile (· == '0')
  let size : Int := ds.length + exponent
  if ds.isEmpty || size < 300 then false
  else if 320 < size then true
  else
    let least := Nat.pow 2 1024 - Nat.pow 2 970
    let scale := Nat.pow 10 exponent.natAbs
    if 0 ≤ exponent then least ≤ valueIn 10 ds * scale else least * scale ≤ valueIn 10 ds

def readFraction? : Text → Option (Text × Text)
  | '.' :: rest => readDigitRun? Char.isDigit rest
  | t => some ([], t)

def readExponent? : Text → Option (Int × Bool × Text)
  | c :: rest =>
    if c = 'e' ∨ c = 'E' then do
      let (negative, rest) := readSign rest
      let (ds, rest) ← readDigitRun? Char.isDigit rest
      let n : Int := valueIn 10 ds
      some (if negative then -n else n, true, rest)
    else some (0, false, c :: rest)
  | [] => some (0, false, [])

/-- The text after a number with a fraction or an exponent; positive numbers beyond all doubles are
refused. -/
def skipReal? (t : Text) : Option Text := do
  let (negative, t) := readSign t
  if ("inf".toList).isPrefixOf t ∨ ("nan".toList).isPrefixOf t then some (t.drop 3)
  else
    let (whole, t) ← readWhole? t
    let (fraction, t) ← readFraction? t
    let (exponent, hasExponent, t) ← readExponent? t
    if fraction.isEmpty && !hasExponent then none
    else if !negative && exceedsDoubles (whole ++ fraction) (exponent - fraction.length) then none
    else some t

/-! ### Dates and times -/

def skipDay? (t : Text) : Option Text := do
  let (year, t) ← readDigits? 4 4 t
  let t ← readChar? '-' t
  let (month, t) ← readDigits? 2 2 t
  let t ← readChar? '-' t
  let (day, t) ← readDigits? 2 2 t
  if (Calendar.Date.of? year month day).isSome then some t else none

def skipTime? (t : Text) : Option Text := do
  let (hour, t) ← readDigits? 2 2 t
  let t ← readChar? ':' t
  let (minute, t) ← readDigits? 2 2 t
  let t ← readChar? ':' t
  let (second, t) ← readDigits? 2 2 t
  if 23 < hour ∨ 59 < minute ∨ 60 < second then none
  else
    match t with
    | '.' :: rest => (readNatural? rest).map (·.2)
    | t => some t

def skipZone? : Text → Option Text
  | 'Z' :: rest => some rest
  | 'z' :: rest => some rest
  | sign :: rest =>
    if sign = '+' ∨ sign = '-' then do
      let (hour, t) ← readDigits? 2 2 rest
      let t ← readChar? ':' t
      let (minute, t) ← readDigits? 2 2 t
      if 23 < hour ∨ 59 < minute then none else some t
    else none
  | [] => none

/-- The text after a date, a time, or a date with a time and perhaps a zone. -/
def skipMoment? (t : Text) : Option Text :=
  match skipDay? t with
  | none => skipTime? t
  | some rest =>
    match rest with
    | mark :: timed =>
      if mark = 'T' ∨ mark = 't' ∨ mark = ' ' then
        match skipTime? timed with
        | some rest => some ((skipZone? rest).getD rest)
        | none => some (mark :: timed)
      else some (mark :: timed)
    | [] => some []

end MailIndex.Toml
