/-!
# Totals

The sum of a list of counts.
-/

namespace MailIndex

def total (counts : List Nat) : Nat := counts.foldr Nat.add 0

@[simp] theorem total_nil : total [] = 0 := rfl

@[simp] theorem total_cons (n : Nat) (counts : List Nat) :
    total (n :: counts) = n + total counts := rfl

theorem total_append (a b : List Nat) : total (a ++ b) = total a + total b := by
  induction a with
  | nil => simp
  | cons n a ih => simp [ih, Nat.add_assoc]

theorem le_total_of_mem {n : Nat} {counts : List Nat} (h : n ∈ counts) : n ≤ total counts := by
  induction counts with
  | nil => cases h
  | cons m counts ih =>
      rw [total_cons]
      cases List.mem_cons.mp h with
      | inl heq => omega
      | inr hmem =>
          have hle := ih hmem
          omega

theorem total_map_le {α : Type} {f g : α → Nat} {items : List α} (h : ∀ a ∈ items, f a ≤ g a) :
    total (items.map f) ≤ total (items.map g) := by
  induction items with
  | nil => exact Nat.le_refl _
  | cons a items ih =>
      obtain ⟨ha, hitems⟩ := List.forall_mem_cons.mp h
      have hle := ih hitems
      simp only [List.map_cons, total_cons]
      omega

end MailIndex
