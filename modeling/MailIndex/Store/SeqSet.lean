/-!
# Sets of sequence numbers

A set of numbers as a list in ascending order without repetition, so that going through it visits
every member once and in order.
-/

namespace MailIndex

abbrev SeqSet := List Nat

namespace SeqSet

def insert (n : Nat) : SeqSet → SeqSet
  | [] => [n]
  | m :: rest => if n < m then n :: m :: rest else if n = m then m :: rest else m :: insert n rest

def ofList (ns : List Nat) : SeqSet := ns.foldr insert []

theorem mem_insert {n k : Nat} {s : SeqSet} : k ∈ insert n s ↔ k = n ∨ k ∈ s := by
  induction s with
  | nil => simp [insert]
  | cons m rest ih =>
    unfold insert
    split
    · simp
    · split
      · rename_i h
        simp [h]
      · simp only [List.mem_cons, ih]
        constructor
        · rintro (h | h | h)
          · exact .inr (.inl h)
          · exact .inl h
          · exact .inr (.inr h)
        · rintro (h | h | h)
          · exact .inr (.inl h)
          · exact .inl h
          · exact .inr (.inr h)

theorem mem_ofList {ns : List Nat} {k : Nat} : k ∈ ofList ns ↔ k ∈ ns := by
  induction ns with
  | nil => simp [ofList]
  | cons n rest ih =>
    change k ∈ insert n (ofList rest) ↔ _
    rw [mem_insert, ih, List.mem_cons]

theorem insert_ascending {n : Nat} {s : SeqSet} (h : s.Pairwise (· < ·)) :
    (insert n s).Pairwise (· < ·) := by
  induction s with
  | nil => simp [insert]
  | cons m rest ih =>
    have hrest := h.of_cons
    have hm : ∀ k ∈ rest, m < k := (List.pairwise_cons.1 h).1
    unfold insert
    split
    · rename_i hn
      refine List.pairwise_cons.2 ⟨fun k hk => ?_, h⟩
      rcases List.mem_cons.1 hk with rfl | hk
      · exact hn
      · exact Nat.lt_trans hn (hm k hk)
    · split
      · exact h
      · refine List.pairwise_cons.2 ⟨fun k hk => ?_, ih hrest⟩
        rcases mem_insert.1 hk with rfl | hk
        · omega
        · exact hm k hk

theorem ofList_ascending (ns : List Nat) : (ofList ns).Pairwise (· < ·) := by
  induction ns with
  | nil => exact .nil
  | cons n rest ih => exact insert_ascending ih

end SeqSet

end MailIndex
