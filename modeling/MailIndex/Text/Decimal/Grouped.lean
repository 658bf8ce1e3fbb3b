import MailIndex.Text.Range

/-!
# Decimal numbers in groups of three

A count is written with a comma before every group of three digits.
-/

namespace MailIndex.Text.Decimal

def digits (n : Nat) : Text := Nat.toDigits 10 n

/-- Digits in groups of three counted from the right, a comma between two groups. -/
def grouped : Text → Text
  | [] => []
  | d :: rest =>
    if rest.length % 3 = 0 ∧ rest ≠ [] then d :: ',' :: grouped rest else d :: grouped rest

def withCommas (n : Nat) : Text := grouped (digits n)

theorem filter_grouped (ds : Text) (h : ',' ∉ ds) : (grouped ds).filter (· ≠ ',') = ds := by
  induction ds with
  | nil => rfl
  | cons d rest ih =>
    simp only [List.mem_cons, not_or] at h
    obtain ⟨hd, hr⟩ := h
    have hd' : d ≠ ',' := fun e => hd e.symm
    unfold grouped
    split <;> simpa [hd'] using ih hr

end MailIndex.Text.Decimal
