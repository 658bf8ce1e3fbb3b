import MailIndex.Text.Decimal.Grouped

/-!
# Decimal numbers with fixed places

A quotient is rounded to the nearest multiple of a power of ten; one that lies in the middle goes to
the even neighbour. Sizes in bytes are written with the largest unit that they reach.
-/

namespace MailIndex.Text.Decimal

/-- The whole number nearest to a quotient, the even one of two that are equally near. -/
def roundedQuotient (numerator denominator : Nat) : Nat :=
  let down := numerator / denominator
  let rest := 2 * (numerator % denominator)
  if rest < denominator ∨ (rest = denominator ∧ down % 2 = 0) then down else down + 1

def fixed (places numerator denominator : Nat) : Text :=
  let units := roundedQuotient (numerator * Nat.pow 10 places) denominator
  let fraction := digits (units % Nat.pow 10 places)
  digits (units / Nat.pow 10 places)
    ++ '.' :: List.replicate (places - fraction.length) '0' ++ fraction

def kilobyte : Nat := 1024

def megabyte : Nat := 1024 * kilobyte

def gigabyte : Nat := 1024 * megabyte

def byteSize (bytes : Nat) : Text :=
  if bytes < kilobyte then digits bytes ++ " B".toList
  else if bytes < megabyte then fixed 1 bytes kilobyte ++ " KB".toList
  else if bytes < gigabyte then fixed 1 bytes megabyte ++ " MB".toList
  else fixed 2 bytes gigabyte ++ " GB".toList

example : byteSize 512 = "512 B".toList := by decide
example : byteSize 2048 = "2.0 KB".toList := by decide
example : byteSize 1280 = "1.2 KB".toList := by decide
example : byteSize (5 * megabyte) = "5.0 MB".toList := by decide

end MailIndex.Text.Decimal
