import MailIndex.Text.Blank

/-!
# Scanning

Small readers for texts with a fixed form. Each gives what it read and the text after it.
-/

namespace MailIndex.Text

def decimalValue (digits : Text) : Nat :=
  digits.foldl (fun n d => n * 10 + (d.toNat - '0'.toNat)) 0

def leadingDigits (t : Text) : Text := t.takeWhile Char.isDigit

def readNatural? (t : Text) : Option (Nat × Text) :=
  let digits := leadingDigits t
  if digits.isEmpty then none else some (decimalValue digits, t.drop digits.length)

/-- A number of at least `least` and at most `most` digits; further digits are left unread. -/
def readDigits? (least most : Nat) (t : Text) : Option (Nat × Text) :=
  let digits := leadingDigits (t.take most)
  if digits.length < least then none else some (decimalValue digits, t.drop digits.length)

def readChar? (c : Char) : Text → Option Text
  | d :: rest => if d = c then some rest else none
  | [] => none

def readBlanks? (t : Text) : Option Text :=
  match t with
  | c :: rest => if isBlank c then some (trimStart rest) else none
  | [] => none

end MailIndex.Text
