/-!
# Text and character ranges

Text is a list of Unicode characters, so that every operation on it is an operation on lists.
Character classes are given by tables of closed ranges.
-/

namespace MailIndex

abbrev Text := List Char

namespace Text

def inRanges (ranges : List (Nat × Nat)) (c : Char) : Bool :=
  ranges.any fun r => r.1 ≤ c.toNat && c.toNat ≤ r.2

theorem inRanges_nil (c : Char) : inRanges [] c = false := rfl

theorem inRanges_cons (r : Nat × Nat) (ranges : List (Nat × Nat)) (c : Char) :
    inRanges (r :: ranges) c = ((r.1 ≤ c.toNat && c.toNat ≤ r.2) || inRanges ranges c) := rfl

/-- A run of characters whose images under a case mapping run alongside them: every `step`-th
character from `first` to `last`, the image of `first` being `image`. -/
structure CaseBlock where
  first : Nat
  last : Nat
  step : Nat
  image : Nat

def CaseBlock.map? (b : CaseBlock) (n : Nat) : Option Nat :=
  if b.first ≤ n ∧ n ≤ b.last ∧ (n - b.first) % b.step = 0 then some (b.image + (n - b.first))
  else none

/-- The image of a character under a table of blocks; characters outside it stay as they are. -/
def mapBlocks (blocks : List CaseBlock) (c : Char) : Char :=
  match blocks.findSome? (·.map? c.toNat) with
  | some n => Char.ofNat n
  | none => c

end Text

end MailIndex
