import MailIndex.Text.Range

/-!
# Layout

Lines that each end in a line break, and fields filled up with spaces to a width.
-/

namespace MailIndex.Text

def ofLines (lines : List Text) : Text := lines.flatMap (· ++ ['\n'])

def firstLine (t : Text) : Text := t.takeWhile (· ≠ '\n')

/-- The text with spaces after it, up to a width in characters. -/
def flushLeft (width : Nat) (t : Text) : Text := t ++ List.replicate (width - t.length) ' '

def flushRight (width : Nat) (t : Text) : Text := List.replicate (width - t.length) ' ' ++ t

theorem ofLines_append (a b : List Text) : ofLines (a ++ b) = ofLines a ++ ofLines b := by
  simp [ofLines]

theorem length_flushLeft (width : Nat) (t : Text) :
    (flushLeft width t).length = max t.length width := by
  simp only [flushLeft, List.length_append, List.length_replicate]
  omega

theorem length_flushRight (width : Nat) (t : Text) :
    (flushRight width t).length = max t.length width := by
  simp only [flushRight, List.length_append, List.length_replicate]
  omega

/-- The start of a text that takes exactly so many bytes, if a character ends there. -/
def firstBytes? : Nat → Text → Option Text
  | 0, _ => some []
  | _ + 1, [] => none
  | n + 1, c :: rest =>
    if c.utf8Size ≤ n + 1 then (firstBytes? (n + 1 - c.utf8Size) rest).map (c :: ·) else none

example : firstBytes? 4 "2024-01".toList = some "2024".toList := by decide
example : firstBytes? 1 "é".toList = none := by decide
example : firstBytes? 3 "é".toList = none := by decide

end MailIndex.Text
