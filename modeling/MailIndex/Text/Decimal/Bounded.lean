import MailIndex.Text.Decimal.Grouped

/-!
# Reading bounded numbers

Decimal numbers of a limited size, read digit by digit: the first thing that goes wrong decides what
is said, be it a character that is no digit or a digit that leads beyond the limit.
-/

namespace MailIndex.Text.Decimal

inductive Fault where
  | empty
  | invalidDigit
  | tooLarge
  | tooSmall
  deriving DecidableEq, Repr

def Fault.message : Fault → Text
  | .empty => "cannot parse integer from empty string".toList
  | .invalidDigit => "invalid digit found in string".toList
  | .tooLarge => "number too large to fit in target type".toList
  | .tooSmall => "number too small to fit in target type".toList

/-- Reads digits on from a number, up to a limit; `beyond` is what leads past it. -/
def readOnto (limit : Nat) (beyond : Fault) : Nat → Text → Except Fault Nat
  | n, [] => .ok n
  | n, c :: rest =>
    if c.isDigit then
      let next := n * 10 + (c.toNat - '0'.toNat)
      if next ≤ limit then readOnto limit beyond next rest else .error beyond
    else .error .invalidDigit

/-- The digits after a sign, of which there has to be one. -/
def readMagnitude (limit : Nat) (beyond : Fault) (t : Text) : Except Fault Nat :=
  if t.isEmpty then .error .invalidDigit else readOnto limit beyond 0 t

def largestCount : Nat := 18446744073709551615

/-- The largest number of 64 bits with a sign; the smallest is one further from zero. -/
def largestInteger : Nat := 9223372036854775807

/-- A number from 0 to the largest of 64 bits; it may have a plus sign. -/
def readCount (t : Text) : Except Fault Nat :=
  match t with
  | [] => .error .empty
  | '+' :: rest => readMagnitude largestCount .tooLarge rest
  | t => readMagnitude largestCount .tooLarge t

def readInteger (t : Text) : Except Fault Int :=
  match t with
  | [] => .error .empty
  | '-' :: rest => (readMagnitude (largestInteger + 1) .tooSmall rest).map fun n => -(n : Int)
  | '+' :: rest => (readMagnitude largestInteger .tooLarge rest).map fun n => (n : Int)
  | t => (readMagnitude largestInteger .tooLarge t).map fun n => (n : Int)

theorem readOnto_le {limit n m : Nat} {beyond : Fault} {t : Text} (hn : n ≤ limit)
    (h : readOnto limit beyond n t = .ok m) : m ≤ limit := by
  induction t generalizing n with
  | nil =>
    simp only [readOnto, Except.ok.injEq] at h
    omega
  | cons c rest ih =>
    simp only [readOnto] at h
    split at h
    · split at h
      · exact ih (by assumption) h
      · simp at h
    · simp at h

end MailIndex.Text.Decimal
