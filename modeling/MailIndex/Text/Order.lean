import MailIndex.Text.Range

/-!
# The order of texts

Texts are ordered character by character, which is also the order of their UTF-8 bytes.
-/

namespace MailIndex.Text

def le (a b : Text) : Bool := !decide (b < a)

theorem le_iff (a b : Text) : le a b = true ↔ ¬ b < a := by simp [le]

theorem le_refl (a : Text) : le a a = true := by
  rw [le_iff]
  exact List.lt_irrefl a

end MailIndex.Text
