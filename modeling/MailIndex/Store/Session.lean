import MailIndex.Store.Statement

/-!
# Write sessions

The one write handle of a run. Writes go into a transaction that is opened when it is first needed
and committed after a number of finished units of work. Only what has been committed is durable.
-/

namespace MailIndex

structure Session where
  /-- What has been committed. -/
  durable : Store
  /-- What the open transaction sees, if one is open. -/
  uncommitted : Option Store
  /-- The units of work finished since the last commit. -/
  pending : Nat
  commits : Nat
  deriving DecidableEq, Repr

namespace Session

def start (s : Store) : Session := ⟨s, none, 0, 0⟩

def view (w : Session) : Store := w.uncommitted.getD w.durable

/-- Puts what a transaction has written in place; opens it if none is open. -/
def write (w : Session) (s : Store) : Session := { w with uncommitted := some s }

def commit (w : Session) : Session :=
  match w.uncommitted with
  | some s => ⟨s, none, 0, w.commits + 1⟩
  | none => { w with pending := 0 }

/-- Counts a finished unit of work, and commits when `interval` of them are there. -/
def finishOne (w : Session) (interval : Nat) : Session :=
  let counted := { w with pending := w.pending + 1 }
  if max 1 interval ≤ counted.pending then counted.commit else counted

def rollback (w : Session) : Session := { w with uncommitted := none, pending := 0 }

@[simp] theorem view_write (w : Session) (s : Store) : (w.write s).view = s := rfl

@[simp] theorem durable_write (w : Session) (s : Store) : (w.write s).durable = w.durable := rfl

@[simp] theorem durable_rollback (w : Session) : w.rollback.durable = w.durable := rfl

@[simp] theorem view_rollback (w : Session) : w.rollback.view = w.durable := rfl

theorem durable_commit (w : Session) : w.commit.durable = w.view := by
  unfold commit view
  cases w.uncommitted <;> rfl

theorem view_commit (w : Session) : w.commit.view = w.view := by
  unfold commit view
  cases w.uncommitted <;> simp

theorem view_finishOne (w : Session) (interval : Nat) :
    (w.finishOne interval).view = w.view := by
  unfold finishOne
  dsimp only
  split
  · rw [view_commit]
    rfl
  · rfl

end Session

end MailIndex
