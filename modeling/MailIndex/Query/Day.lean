import MailIndex.Text.Range

/-!
# Days in date filters

A date filter takes a year, a month and a day in digits, each of the two hyphens optional. The
month and the day are checked against their largest ranges only, not against a calendar.
-/

namespace MailIndex.Query

def twoDigits (tens ones : Char) : Nat := (tens.toNat - '0'.toNat) * 10 + (ones.toNat - '0'.toNat)

/-- The text after a hyphen, or all of it if it starts with none. -/
def dropHyphen : Text → Text
  | '-' :: rest => rest
  | rest => rest

def normalizeDay? (value : Text) : Option Text :=
  match value with
  | y₁ :: y₂ :: y₃ :: y₄ :: rest =>
    match dropHyphen rest with
    | m₁ :: m₂ :: rest =>
      match dropHyphen rest with
      | [d₁, d₂] =>
        if [y₁, y₂, y₃, y₄, m₁, m₂, d₁, d₂].all Char.isDigit
            ∧ 1 ≤ twoDigits m₁ m₂ ∧ twoDigits m₁ m₂ ≤ 12
            ∧ 1 ≤ twoDigits d₁ d₂ ∧ twoDigits d₁ d₂ ≤ 31 then
          some [y₁, y₂, y₃, y₄, '-', m₁, m₂, '-', d₁, d₂]
        else none
      | _ => none
    | _ => none
  | _ => none

end MailIndex.Query
