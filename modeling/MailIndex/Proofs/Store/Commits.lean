import MailIndex.Store.Session
import Mathlib.Algebra.Order.Floor.Div

/-!
# How often a session commits

A session commits after every full interval of finished work, and once more at the end if some of
its work does not fill an interval. So the commits of a loop are its work divided by the interval,
rounded up.
-/

namespace MailIndex.Session

/-- So many units of work have been finished since `start` commits had been made. Those that do not
fill an interval are in the open transaction, and none is open without them. -/
structure Counted (start interval units : Nat) (w : Session) : Prop where
  commits : w.commits = start + units / max 1 interval
  pending : w.pending = units % max 1 interval
  idle : w.uncommitted = none ↔ units % max 1 interval = 0

variable {start interval units : Nat} {w : Session}

theorem interval_pos (interval : Nat) : 0 < max 1 interval :=
  Nat.lt_of_lt_of_le Nat.zero_lt_one (Nat.le_max_left _ _)

theorem Counted.finishOne (h : w.Counted start interval units) (s : Store) :
    ((w.write s).finishOne interval).Counted start interval (units + 1) := by
  obtain ⟨hcommits, hpending, -⟩ := h
  have hpos := interval_pos interval
  unfold Session.finishOne Session.write
  dsimp only
  rw [hpending]
  have hlt : units % max 1 interval < max 1 interval := Nat.mod_lt _ hpos
  have hwhole := Nat.mod_add_div units (max 1 interval)
  split
  · next hfull =>
      -- This unit fills the interval, and no transaction stays open.
      have hlast : (units + 1) / max 1 interval = units / max 1 interval + 1 ∧
          (units + 1) % max 1 interval = 0 := by
        rw [Nat.div_mod_unique hpos, Nat.mul_add]
        omega
      refine ⟨?_, hlast.2.symm, ?_⟩
      · rw [hlast.1, ← Nat.add_assoc, ← hcommits]
        rfl
      · simp [Session.commit, hlast.2]
  · next hfew =>
      have hmore : (units + 1) / max 1 interval = units / max 1 interval ∧
          (units + 1) % max 1 interval = units % max 1 interval + 1 := by
        rw [Nat.div_mod_unique hpos]
        omega
      refine ⟨?_, hmore.2.symm, ?_⟩
      · rw [hmore.1, ← hcommits]
      · simp [hmore.2]

/-- A commit makes an interval that is not full count as one. -/
theorem Counted.commit (h : w.Counted start interval units) :
    w.commit.Counted (start + units ⌈/⌉ max 1 interval) interval 0 := by
  obtain ⟨hcommits, -, hidle⟩ := h
  have hpos := interval_pos interval
  have hlt : units % max 1 interval < max 1 interval := Nat.mod_lt _ hpos
  have hwhole := Nat.mod_add_div units (max 1 interval)
  unfold Session.commit
  rw [Nat.ceilDiv_eq_add_pred_div]
  cases huncommitted : w.uncommitted with
  | none =>
      have hfull : units % max 1 interval = 0 := hidle.mp huncommitted
      have hsame : (units + max 1 interval - 1) / max 1 interval = units / max 1 interval :=
        ((Nat.div_mod_unique hpos (c := max 1 interval - 1)).mpr (by omega)).1
      exact ⟨by simp [hsame, hcommits], by simp, by simp⟩
  | some s =>
      have hopen : units % max 1 interval ≠ 0 := fun hfull => by
        rw [hidle.mpr hfull] at huncommitted
        cases huncommitted
      have hmore : (units + max 1 interval - 1) / max 1 interval = units / max 1 interval + 1 :=
        ((Nat.div_mod_unique hpos (c := units % max 1 interval - 1)).mpr (by
          rw [Nat.mul_add]
          omega)).1
      exact ⟨by simp [hmore, hcommits, Nat.add_assoc], by simp, by simp⟩

end MailIndex.Session
