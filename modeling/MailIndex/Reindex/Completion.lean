import MailIndex.Reindex.Run

/-!
# Completion

Every run ends: the five stages up to the candidates lead on one by one, the loop over the
candidates comes nearer to its end with every step, and so does the loop over superseded entries.
Hence a complete run has a report or a cause of failure.
-/

namespace MailIndex.Reindex

/-- How many steps a stage is before the loop over the candidates. -/
def Stage.ahead : Stage → Nat
  | .beginning => 5
  | .scoped _ => 4
  | .noted _ _ => 3
  | .prepared _ _ => 2
  | .selected _ _ _ => 1
  | _ => 0

def Stage.isLate : Stage → Bool
  | .pruning _ _ _ _ _ => true
  | .finished _ => true
  | .failed _ => true
  | _ => false

namespace Run

variable (o : Options) (env : Surroundings)

@[simp] theorem stage_interfere (r : Run) (writes : List OutsideWrite) :
    (r.interfere writes).stage = r.stage := by
  unfold interfere
  split <;> rfl

theorem ahead_proceed {α : Type} (r : Run) (result : Except Failure α) (next : α → Stage) {n : Nat}
    (h : ∀ a, (next a).ahead ≤ n) : (r.proceed result next).stage.ahead ≤ n := by
  cases result with
  | ok a => exact h a
  | error f => exact Nat.zero_le n

theorem ahead_step (r : Run) : (r.step o env).stage.ahead ≤ r.stage.ahead - 1 := by
  unfold step
  split
  · rename_i h
    rw [h]
    unfold resolve
    dsimp only
    split <;> simp [Stage.ahead, fail]
  · rename_i h
    rw [h]
    exact ahead_proceed _ _ _ fun _ => Nat.le_refl 3
  · rename_i h
    rw [h]
    unfold prepare
    split
    · split <;> simp [Stage.ahead, fail]
    · simp [Stage.ahead]
  · rename_i h
    rw [h]
    exact ahead_proceed _ _ _ fun _ => Nat.le_refl 1
  · rename_i h
    rw [h]
    exact ahead_proceed _ _ _ fun _ => Nat.le_refl 0
  · exact Nat.zero_le _
  · split
    · exact Nat.zero_le _
    · unfold indexNext
      dsimp only
      split
      · exact Nat.zero_le _
      · split <;> exact Nat.zero_le _
  · exact Nat.zero_le _
  · unfold pruneNext
    split <;> exact Nat.zero_le _
  · rename_i h
    rw [h]
    exact Nat.zero_le _
  · rename_i h
    rw [h]
    exact Nat.zero_le _

theorem ahead_advances (n : Nat) (r : Run) :
    (advances o env n r).stage.ahead ≤ r.stage.ahead - n := by
  induction n generalizing r with
  | zero => exact Nat.le_refl _
  | succ n ih =>
    have h := ahead_step o env (r.interfere (r.outsideBefore env))
    rw [stage_interfere] at h
    have := ih (r.advance o env)
    unfold advance at this
    unfold advances advance
    omega

/-- A step of the loop over the candidates ends it or deals with one of them. -/
theorem step_of_indexing (r : Run) (had : List Nat) (left : List Document) (toPrune : SeqSet)
    (tally : Tally) (h : r.stage = .indexing had left toPrune tally) :
    (r.step o env).stage.isLate = true ∨
      ∃ toPrune' tally', (r.step o env).stage = .indexing had left.tail toPrune' tally' := by
  unfold step
  rw [h]
  cases left with
  | nil => exact .inl rfl
  | cons d left =>
    dsimp only
    split
    · exact .inl rfl
    · unfold indexNext
      dsimp only
      split
      · exact .inr ⟨_, _, rfl⟩
      · split
        · exact .inl rfl
        · exact .inr ⟨_, _, rfl⟩
        · exact .inr ⟨_, _, rfl⟩

/-- A step of the loop over superseded entries brings its end nearer. -/
theorem step_of_isLate (r : Run) (h : r.stage.isLate = true) :
    (r.step o env).stage.isLate = true ∧ (r.step o env).loopLength ≤ r.loopLength - 1 := by
  unfold step
  split
  all_goals rename_i hstage
  all_goals rw [hstage] at h
  all_goals try (simp [Stage.isLate] at h; done)
  · exact ⟨rfl, Nat.zero_le _⟩
  · unfold pruneNext
    split
    · exact ⟨rfl, Nat.zero_le _⟩
    · refine ⟨rfl, ?_⟩
      simp [loopLength, hstage, report]
  · exact ⟨by rw [hstage]; rfl, by simp [loopLength, hstage]⟩
  · exact ⟨by rw [hstage]; rfl, by simp [loopLength, hstage]⟩

theorem advances_of_isLate (n : Nat) (r : Run) (h : r.stage.isLate = true) :
    (advances o env n r).stage.isLate = true ∧
      (advances o env n r).loopLength ≤ r.loopLength - n := by
  induction n generalizing r with
  | zero => exact ⟨h, Nat.le_refl _⟩
  | succ n ih =>
    have hi : (r.interfere (r.outsideBefore env)).stage.isLate = true := by
      rw [stage_interfere]
      exact h
    obtain ⟨hlate, hlength⟩ := step_of_isLate o env _ hi
    have hsame : (r.interfere (r.outsideBefore env)).loopLength = r.loopLength := by
      simp [loopLength]
    obtain ⟨hlate', hlength'⟩ := ih (r.advance o env) hlate
    refine ⟨hlate', ?_⟩
    unfold advance at hlength'
    unfold advances advance
    omega

theorem advances_of_indexing (n : Nat) (r : Run) (had : List Nat) (left : List Document)
    (toPrune : SeqSet) (tally : Tally) (h : r.stage = .indexing had left toPrune tally)
    (hn : left.length < n) : (advances o env n r).stage.isLate = true := by
  induction n generalizing r left toPrune tally with
  | zero => omega
  | succ n ih =>
    have hi : (r.interfere (r.outsideBefore env)).stage = .indexing had left toPrune tally := by
      rw [stage_interfere, h]
    rcases step_of_indexing o env _ had left toPrune tally hi with hlate | ⟨p, t, hstage⟩
    · exact (advances_of_isLate o env n (r.advance o env) hlate).1
    · cases left with
      | nil =>
        have hlate : (r.advance o env).stage.isLate = true := by
          unfold advance step
          rw [hi]
          rfl
        exact (advances_of_isLate o env n _ hlate).1
      | cons d left => exact ih (r.advance o env) left p t hstage (by simp at hn; omega)

theorem isLate_throughLoop (r : Run) (h : r.stage.ahead = 0) :
    (r.throughLoop o env).stage.isLate = true := by
  unfold throughLoop
  cases hstage : r.stage with
  | indexing had left toPrune tally =>
    exact advances_of_indexing o env _ r had left toPrune tally hstage
      (by simp [loopLength, hstage])
  | pruning => exact (advances_of_isLate o env _ r (by rw [hstage]; rfl)).1
  | finished => exact (advances_of_isLate o env _ r (by rw [hstage]; rfl)).1
  | failed => exact (advances_of_isLate o env _ r (by rw [hstage]; rfl)).1
  | _ => simp [hstage, Stage.ahead] at h

theorem isSome_outcome?_complete (s : Store) : (complete o env s).outcome?.isSome = true := by
  have hahead : (advances o env 5 (start s)).stage.ahead = 0 := by
    have := ahead_advances o env 5 (start s)
    simpa [start, Stage.ahead] using this
  have hlate := isLate_throughLoop o env _ hahead
  have hend := advances_of_isLate o env
    ((advances o env 5 (start s)).throughLoop o env).loopLength _ hlate
  rw [Nat.sub_self] at hend
  unfold complete
  generalize hr : throughLoop o env (throughLoop o env (advances o env 5 (start s))) = r
  have hlast : r.stage.isLate = true ∧ r.loopLength ≤ 0 := by
    rw [← hr]
    exact hend
  obtain ⟨hl, hz⟩ := hlast
  unfold outcome?
  cases hstage : r.stage <;> simp_all [Stage.isLate, loopLength]

end Run

end MailIndex.Reindex
